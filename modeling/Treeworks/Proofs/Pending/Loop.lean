import Mathlib.Algebra.Order.Group.Multiset
import Treeworks.Loop

/-! The settle callbacks that a loop holds. Each is for a future: it watches the future while that is open, and is
queued when it has ended. Nothing that happens in a loop makes one or loses one, but for those that are made to watch, run
or dropped. -/
namespace Treeworks

/-- What a settle callback is for: a ticket, and the future that it waits for. -/
def Callback.awaits? : Callback → Option (Nat × Nat)
  | .settled ticket future => some (ticket, future)
  | _ => none

namespace Loop
variable {l l' l'' : Loop}

/-- What the settle callbacks among some handles are for. -/
def settles (hs : List Handle) : List (Nat × Nat) := hs.filterMap (·.callback.awaits?)

/-- What the settle callbacks of a loop are for: those that watch, and those that are queued. -/
def held (l : Loop) : Multiset (Nat × Nat) := ↑(l.futures.toList.flatMap (settles ·.watchers)) + ↑(settles l.ready)

/-- Whether each settle callback watches the future that it is for as long as that is open, and is queued then. -/
structure Tidy (l : Loop) : Prop where
  watching : ∀ i, ∀ p ∈ settles (l.future i).watchers, p.2 = i
  ended : ∀ i, l.isDone i = true → (l.future i).watchers = []
  queued : ∀ p ∈ settles l.ready, l.isDone p.2 = true

theorem future_empty (i : Nat) : empty.future i = default := by simp [future, empty]

theorem tidy_empty : empty.Tidy where
  watching i p hp := by
    rw [future_empty] at hp
    cases hp
  ended i _ := by
    rw [future_empty]
    rfl
  queued p hp := by cases hp

/-- A loop that has gone on and holds the same settle callbacks. -/
structure GoesOn (l l' : Loop) : Prop where
  held : l'.held = l.held
  done : ∀ i, l.isDone i = true → l'.isDone i = true
  futures : l.futures.size ≤ l'.futures.size
  tidy : l.Tidy → l'.Tidy

theorem GoesOn.refl (l : Loop) : l.GoesOn l := ⟨rfl, fun _ h => h, Nat.le_refl _, fun h => h⟩

theorem GoesOn.trans (h : l.GoesOn l') (h' : l'.GoesOn l'') : l.GoesOn l'' :=
  ⟨h'.held.trans h.held, fun i hi => h'.done i (h.done i hi), Nat.le_trans h.futures h'.futures, fun ht => h'.tidy (h.tidy ht)⟩

theorem settles_append (hs hs' : List Handle) : settles (hs ++ hs') = settles hs ++ settles hs' :=
  List.filterMap_append

theorem settles_single_of_none {h : Handle} (hh : h.callback.awaits? = none) : settles [h] = [] := by
  simp [settles, hh]

/-- A change at one place of a list takes away what was there and puts in what is there then. -/
theorem coe_flatMap_modify {α β : Type} (xs : List α) (i : Nat) (hi : i < xs.length) (f : α → α) (g : α → List β) :
    (↑((xs.modify i f).flatMap g) + ↑(g xs[i]) : Multiset β) = ↑(xs.flatMap g) + ↑(g (f xs[i])) := by
  induction xs generalizing i with
  | nil => cases hi
  | cons x xs ih =>
    cases i with
    | zero =>
      simp only [List.modify_zero_cons, List.flatMap_cons, List.getElem_cons_zero, ← Multiset.coe_add]
      ac_rfl
    | succ i =>
      have hrest := ih i (Nat.lt_of_succ_lt_succ hi)
      simp only [List.modify_succ_cons, List.flatMap_cons, List.getElem_cons_succ, ← Multiset.coe_add, add_assoc, hrest]

theorem held_update (l : Loop) {i : Nat} (hi : i < l.futures.size) (f : Future → Future) :
    (l.update i f).held + ↑(settles (l.future i).watchers) = l.held + ↑(settles (f (l.future i)).watchers) := by
  have hfuture : l.future i = l.futures.toList[i] := by simp [future, hi]
  have hmodify := coe_flatMap_modify l.futures.toList i hi f (settles ·.watchers)
  rw [hfuture]
  simp only [held, update, Array.toList_modify]
  calc _ = (↑((l.futures.toList.modify i f).flatMap (settles ·.watchers)) +
          ↑(settles l.futures.toList[i].watchers) : Multiset (Nat × Nat)) + ↑(settles l.ready) := by ac_rfl
    _ = _ := by rw [hmodify]; ac_rfl

theorem update_of_le (l : Loop) {i : Nat} (hi : l.futures.size ≤ i) (f : Future → Future) : l.update i f = l := by
  have hsame : l.futures.modify i f = l.futures := by
    apply Array.ext (by simp)
    intro j _ hj
    rw [Array.getElem_modify, if_neg (by omega)]
  rw [update, hsame]

theorem isDone_update (l : Loop) (i j : Nat) {f : Future → Future} (hf : (f (l.future i)).ending = (l.future i).ending) :
    (l.update i f).isDone j = l.isDone j := by
  rw [isDone, future_update]
  split
  · rename_i h
    rw [← h.1, hf]
    rfl
  · rfl

/-! ### What keeps the settle callbacks -/

/-- A future may be changed that ends no sooner or later, and has the same settle callbacks. -/
theorem goesOn_update (l : Loop) (i : Nat) {f : Future → Future} (hending : (f (l.future i)).ending = (l.future i).ending)
    (hsettles : settles (f (l.future i)).watchers = settles (l.future i).watchers)
    (hended : l.isDone i = true → (l.future i).watchers = [] → (f (l.future i)).watchers = []) :
    l.GoesOn (l.update i f) := by
  by_cases hi : i < l.futures.size
  · have hdone (j : Nat) : (l.update i f).isDone j = l.isDone j := isDone_update l i j hending
    refine ⟨?_, fun j hj => (hdone j).trans hj, by simp [update], fun ht => ⟨fun j p hp => ?_, fun j hj => ?_, ?_⟩⟩
    · have hheld := held_update l hi f
      rw [hsettles] at hheld
      exact add_right_cancel hheld
    · rw [future_update] at hp
      split at hp
      · rename_i h
        rw [← h.1] at hp ⊢
        exact ht.watching i p (hsettles ▸ hp)
      · exact ht.watching j p hp
    · rw [hdone] at hj
      rw [future_update]
      split
      · rename_i h
        rw [← h.1] at hj ⊢
        exact hended hj (ht.ended i hj)
      · exact ht.ended j hj
    · intro p hp
      rw [hdone]
      exact ht.queued p hp
  · rw [update_of_le l (Nat.le_of_not_lt hi)]
    exact .refl l

theorem goesOn_schedule (l : Loop) {h : Handle} (hh : h.callback.awaits? = none) : l.GoesOn (l.schedule h) := by
  have hready : settles (l.schedule h).ready = settles l.ready := by
    rw [schedule, settles_append, settles_single_of_none hh, List.append_nil]
  refine ⟨?_, fun _ hi => hi, Nat.le_refl _, fun ht => ⟨ht.watching, ht.ended, fun p hp => ?_⟩⟩
  · rw [held, hready]
    rfl
  · rw [hready] at hp
    exact ht.queued p hp

/-- A new future, with a task or none. -/
theorem goesOn_push (l : Loop) (task : Option Task) : l.GoesOn { l with futures := l.futures.push ⟨none, [], task⟩ } := by
  let l' : Loop := { l with futures := l.futures.push ⟨none, [], task⟩ }
  have hfuture (i : Nat) : (l'.future i).watchers = (l.future i).watchers ∧ l'.isDone i = l.isDone i := by
    simp only [isDone, future, l', Array.getD_eq_getD_getElem?, Array.getElem?_push]
    split
    · rename_i hi
      subst hi
      simp
      exact ⟨rfl, rfl⟩
    · exact ⟨rfl, rfl⟩
  refine ⟨?_, fun i hi => (hfuture i).2.trans hi, by simp, fun ht => ⟨fun i p hp => ?_, fun i hi => ?_, fun p hp => ?_⟩⟩
  · simp [held, settles]
  · exact ht.watching i p ((hfuture i).1 ▸ hp)
  · exact (hfuture i).1.trans (ht.ended i ((hfuture i).2 ▸ hi))
  · exact (hfuture p.2).2.trans (ht.queued p hp)

theorem goesOn_newTask (l : Loop) (coroutine cell : Nat) : l.GoesOn (l.newTask coroutine cell).2 :=
  (goesOn_push l _).trans (goesOn_schedule _ rfl)

theorem goesOn_updateTask (l : Loop) (i : Nat) (f : Task → Task) : l.GoesOn (l.updateTask i f) :=
  goesOn_update l i rfl rfl fun _ h => h

theorem goesOn_watch (l : Loop) (i : Nat) {h : Handle} (hh : h.callback.awaits? = none) : l.GoesOn (l.watch i h) := by
  unfold watch
  split
  · exact goesOn_schedule l hh
  · rename_i hopen
    refine goesOn_update l i rfl ?_ fun hdone => absurd hdone hopen
    rw [settles_append, settles_single_of_none hh, List.append_nil]

/-- When a future ends, the settle callbacks that watch it are queued. -/
theorem goesOn_settle (l : Loop) (i : Nat) (ending : Ending) : l.GoesOn (l.settle i ending) := by
  unfold settle
  split
  · exact .refl l
  rename_i hopen
  let f (x : Future) : Future := { x with ending := some ending, watchers := [] }
  let l' : Loop := { l.update i f with ready := l.ready ++ (l.future i).watchers }
  show l.GoesOn l'
  have hdone (j : Nat) : l'.isDone j = if i = j ∧ j < l.futures.size then true else l.isDone j := by
    show ((l.update i f).future j).ending.isSome = _
    rw [future_update]
    split <;> rfl
  have hmono (j : Nat) (hj : l.isDone j = true) : l'.isDone j = true := by
    rw [hdone, hj]
    simp
  -- The future that ends has no watchers any more, and the others have those that they had.
  have hwatchers (j : Nat) (h : Handle) (hh : h ∈ (l'.future j).watchers) : h ∈ (l.future j).watchers ∧ j ≠ i := by
    change h ∈ ((l.update i f).future j).watchers at hh
    rw [future_update] at hh
    split at hh
    · cases hh
    · rename_i hne
      refine ⟨hh, fun hji => ?_⟩
      subst hji
      have hnone : l.future j = default := by simp [future, Nat.le_of_not_lt fun hj => hne ⟨rfl, hj⟩]
      rw [hnone] at hh
      cases hh
  refine ⟨?_, hmono, by simp [l', update], fun ht => ⟨fun j p hp => ?_, fun j hj => ?_, fun p hp => ?_⟩⟩
  -- The callbacks move from the future to the queue, and are held all the same.
  · have hheld : l'.held = (l.update i f).held + ↑(settles (l.future i).watchers) := by
      simp only [l', held, settles_append, ← Multiset.coe_add, update]
      ac_rfl
    by_cases hi : i < l.futures.size
    · rw [hheld, held_update l hi f]
      exact add_zero _
    · have hnone : l.future i = default := by simp [future, Nat.le_of_not_lt hi]
      rw [hheld, update_of_le l (Nat.le_of_not_lt hi), hnone]
      exact add_zero _
  · obtain ⟨h, hh, hp⟩ := List.mem_filterMap.mp hp
    exact ht.watching j p (List.mem_filterMap.mpr ⟨h, (hwatchers j h hh).1, hp⟩)
  · rw [hdone] at hj
    apply List.eq_nil_iff_forall_not_mem.mpr
    intro h hh
    obtain ⟨hold, hne⟩ := hwatchers j h hh
    rw [if_neg fun h => hne h.1.symm] at hj
    rw [ht.ended j hj] at hold
    cases hold
  · rw [show l'.ready = l.ready ++ (l.future i).watchers from rfl, settles_append] at hp
    rcases List.mem_append.mp hp with hp | hp
    · exact hmono _ (ht.queued p hp)
    · rw [hdone, ht.watching i p hp]
      by_cases hi : i < l.futures.size
      · simp [hi]
      · have hnone : l.future i = default := by simp [future, Nat.le_of_not_lt hi]
        rw [hnone] at hp
        cases hp

theorem goesOn_cancel (l : Loop) (i : Nat) : l.GoesOn (l.cancel i).2 := by
  unfold cancel
  split
  · exact .refl l
  split
  · exact goesOn_settle l i _
  split
  · split
    · exact goesOn_settle l _ _
    · exact goesOn_updateTask l i _
  · exact goesOn_updateTask l i _

/-- What is taken from the queue is no longer held; the future of a settle callback among it has ended. -/
theorem held_ready (hs rest : List Handle) (hready : l.ready = hs ++ rest) :
    l.held = ↑(settles hs) + { l with ready := rest }.held := by
  simp only [held, hready, settles_append, ← Multiset.coe_add]
  ac_rfl

theorem Tidy.ready (ht : l.Tidy) (hs rest : List Handle) (hready : l.ready = hs ++ rest) :
    { l with ready := rest }.Tidy ∧ ∀ p ∈ settles hs, l.isDone p.2 = true := by
  have hqueued := ht.queued
  rw [hready, settles_append] at hqueued
  exact ⟨⟨ht.watching, ht.ended, fun p hp => hqueued p (List.mem_append_right _ hp)⟩,
    fun p hp => hqueued p (List.mem_append_left _ hp)⟩

theorem goesOn_take (l : Loop) {h : Handle} {rest : List Handle} (hready : l.ready = h :: rest)
    (hh : h.callback.awaits? = none) : l.GoesOn { l with ready := rest } := by
  have hheld := held_ready [h] rest hready
  rw [settles_single_of_none hh, Multiset.coe_nil, zero_add] at hheld
  exact ⟨hheld.symm, fun _ hi => hi, Nat.le_refl _, fun ht => (ht.ready [h] rest hready).1⟩

/-- What can happen in a loop but for the settle callbacks: futures and tasks are made, they end or are asked to, other
callbacks watch them or are queued, and the loop is started and stopped. -/
inductive Goes (l : Loop) : Loop → Prop
  | newFuture : l.Goes l.newFuture.2
  | newTask (coroutine cell : Nat) : l.Goes (l.newTask coroutine cell).2
  | updateTask (i : Nat) (f : Task → Task) : l.Goes (l.updateTask i f)
  | watch (i : Nat) {h : Handle} : h.callback.awaits? = none → l.Goes (l.watch i h)
  | schedule {h : Handle} : h.callback.awaits? = none → l.Goes (l.schedule h)
  | take {h : Handle} {rest : List Handle} : l.ready = h :: rest → h.callback.awaits? = none → l.Goes { l with ready := rest }
  | settle (i : Nat) (ending : Ending) : l.Goes (l.settle i ending)
  | cancel (i : Nat) : l.Goes (l.cancel i).2
  | flags (running stopping : Bool) (collecting : Nat) :
      l.Goes { l with running := running, stopping := stopping, collecting := collecting }

theorem Goes.goesOn (h : l.Goes l') : l.GoesOn l' := by
  cases h with
  | newFuture => exact goesOn_push l none
  | newTask coroutine cell => exact goesOn_newTask l coroutine cell
  | updateTask i f => exact goesOn_updateTask l i f
  | watch i hh => exact goesOn_watch l i hh
  | schedule hh => exact goesOn_schedule l hh
  | take hready hh => exact goesOn_take l hready hh
  | settle i ending => exact goesOn_settle l i ending
  | cancel i => exact goesOn_cancel l i
  | flags => exact ⟨rfl, fun _ h => h, Nat.le_refl _, fun ht => ⟨ht.watching, ht.ended, ht.queued⟩⟩

/-! ### What makes settle callbacks, and what takes them -/

section
variable (l : Loop) {i : Nat} (t cell : Nat)

theorem isDone_watch (h : Handle) (j : Nat) : (l.watch i h).isDone j = l.isDone j := by
  unfold watch
  split
  · rfl
  · exact isDone_update l i j rfl

theorem futures_watch (h : Handle) : (l.watch i h).futures.size = l.futures.size := by
  unfold watch
  split
  · rfl
  · simp [update]

/-- A settle callback for a future is held from when it watches, also if the future has ended. -/
theorem held_watch (hi : i < l.futures.size) : (l.watch i ⟨.settled t i, cell⟩).held = {(t, i)} + l.held := by
  unfold watch
  split
  · rw [held, schedule, settles_append, ← Multiset.coe_add, held]
    show _ + (_ + ({(t, i)} : Multiset (Nat × Nat))) = _
    ac_rfl
  · let f (x : Future) : Future := { x with watchers := x.watchers ++ [⟨.settled t i, cell⟩] }
    have hheld := held_update l hi f
    have hsettles : settles (f (l.future i)).watchers = settles (l.future i).watchers ++ [(t, i)] := settles_append _ _
    rw [hsettles, ← Multiset.coe_add] at hheld
    apply add_right_cancel (b := (↑(settles (l.future i).watchers) : Multiset (Nat × Nat)))
    refine hheld.trans ?_
    show l.held + (_ + ({(t, i)} : Multiset (Nat × Nat))) = _
    ac_rfl

theorem tidy_watch (ht : l.Tidy) : (l.watch i ⟨.settled t i, cell⟩).Tidy := by
  unfold watch
  split
  · rename_i hdone
    refine ⟨ht.watching, ht.ended, fun p hp => ?_⟩
    rw [schedule, settles_append] at hp
    rcases List.mem_append.mp hp with hp | hp
    · exact ht.queued p hp
    · rw [List.mem_singleton.mp hp]
      exact hdone
  · rename_i hopen
    let f (x : Future) : Future := { x with watchers := x.watchers ++ [⟨.settled t i, cell⟩] }
    have hdone (j : Nat) : (l.update i f).isDone j = l.isDone j := isDone_update l i j rfl
    refine ⟨fun j p hp => ?_, fun j hj => ?_, fun p hp => (hdone p.2).trans (ht.queued p hp)⟩
    · rw [future_update] at hp
      split at hp
      · rename_i h
        rw [← h.1] at hp ⊢
        rw [settles_append] at hp
        rcases List.mem_append.mp hp with hp | hp
        · exact ht.watching i p hp
        · rw [List.mem_singleton.mp hp]
      · exact ht.watching j p hp
    · rw [hdone] at hj
      rw [future_update, if_neg]
      · exact ht.ended j hj
      · rintro ⟨rfl, -⟩
        exact hopen hj

end

end Loop
end Treeworks
