import Treeworks.Proofs.Pending.Loop
import Treeworks.Proofs.Pending.Wares
import Treeworks.Proofs.Run.Play

/-! Runs of wares on a loop. A step may give an awaitable; its future is then watched by a settle callback, and held among
the futures of the ware until that callback runs. What a ware holds is what its runs still wait for: each open future
that a run waits for is there, a future goes only when it has ended, and nothing is left when all callbacks have run. -/
namespace Treeworks

/-- A runner and a loop, with what the settle callbacks are for that have been made and have not run. Some of these
were dropped with a loop that was closed. -/
structure Vigil where
  runner : Runner
  loop : Loop
  awaited : Multiset (Nat × Nat)
  dropped : Multiset (Nat × Nat)

namespace Vigil
variable {base : Nat → List Nat} {v v' : Vigil} {τ τ' : History} {m : Move} {t f w : Nat}

/-- Whether a run of a ware waits for a future. -/
def Waits (v : Vigil) (w f : Nat) : Prop := ∃ t, (t, f) ∈ v.awaited ∧ v.runner.wareOf t = w

/-- Makes a move. -/
def move (v : Vigil) (m : Move) : Vigil := { v with runner := (v.runner.react m).1 }

/-- Watches a future for a step: a settle callback is made for it. -/
def await (v : Vigil) (t f cell : Nat) : Vigil where
  runner := (v.runner.react (.watching f)).1
  loop := v.loop.watch f ⟨.settled t f, cell⟩
  awaited := (t, f) ::ₘ v.awaited
  dropped := v.dropped

/-- Begins to run the settle callback that is first in the queue. -/
def tell (v : Vigil) (t f : Nat) (rest : List Handle) : Vigil where
  runner := v.runner.discard t f
  loop := { v.loop with ready := rest }
  awaited := v.awaited.erase (t, f)
  dropped := v.dropped

/-- Drops the queue. -/
def drop (v : Vigil) : Vigil :=
  { v with loop := { v.loop with ready := [] }, dropped := v.dropped + ↑(Loop.settles v.loop.ready) }

/-- The moves that can come besides those by which a future is watched. A run is one of a ware that there is, and a
future is settled when it has ended. -/
def Permits (v : Vigil) : Move → Prop
  | .start w _ _ => w < v.runner.wares.size
  | .settled _ f _ => v.loop.isDone f = true
  | .watching _ => False
  | _ => True

/-- What can happen next. Steps are registered, and wares and steps made and changed at any time, but nobody changes what
a ware waits for; any move may come, also one with which a callback of a run raises; and the loop goes on. -/
inductive Step (base : Nat → List Nat) (v : Vigil) (τ : History) : Vigil → History → Prop
  | register (ware step : Nat) : Step base v τ v (τ ++ [.registered ware step])
  | equip {wares : Array Ware} (steps : Array Treeworks.Step) : v.runner.wares.size ≤ wares.size →
      (∀ w, (wares.getD w default).pending = v.runner.pending w) →
        Step base v τ { v with runner := { v.runner with wares := wares, steps := steps } } τ
  | move {m : Move} : v.runner.Admits (τ.registry base) m → v.Permits m →
      Step base v τ (v.move m) (τ ++ v.runner.deeds m)
  | await {a : Activation} {rest : List Activation} {t f : Nat} (cell : Nat) : v.runner.stack = a :: rest →
      a.wait = .settling t → f < v.loop.futures.size → Step base v τ (v.await t f cell) (τ ++ v.runner.deeds (.watching f))
  | loop {l : Loop} : v.loop.Goes l → Step base v τ { v with loop := l } τ
  | tell {t f cell : Nat} {rest : List Handle} : v.loop.ready = ⟨.settled t f, cell⟩ :: rest →
      Step base v τ (v.tell t f rest) τ
  | drop : Step base v τ v.drop τ

/-- What can come about from a runner without runs, whose wares wait for nothing, and a loop in which nothing has
happened. -/
inductive Kept (base : Nat → List Nat) : Vigil → History → Prop
  | begin {r : Runner} : r.runs = #[] → r.tickets = #[] → r.stack = [] → (∀ w, r.pending w = []) →
      Kept base ⟨r, .empty, 0, 0⟩ []
  | step {v v' : Vigil} {τ τ' : History} : Kept base v τ → Step base v τ v' τ' → Kept base v' τ'

/-- The invariant. -/
structure Sound (base : Nat → List Nat) (v : Vigil) (τ : History) : Prop where
  reached : Reached base v.runner τ
  tidy : v.loop.Tidy
  accounted : v.awaited = v.loop.held + v.dropped
  ended : ∀ p ∈ v.dropped, v.loop.isDone p.2 = true
  ticket : ∀ p ∈ v.awaited, p.1 < v.runner.tickets.size
  home : ∀ i < v.runner.runs.size, (v.runner.run i).ware < v.runner.wares.size
  nodup : ∀ w, (v.runner.pending w).Nodup
  kept : ∀ w f, v.Waits w f → v.loop.isDone f = false → f ∈ v.runner.pending w
  waits : ∀ w, ∀ f ∈ v.runner.pending w, v.Waits w f

namespace Sound

theorem begin {r : Runner} (hruns : r.runs = #[]) (htickets : r.tickets = #[]) (hstack : r.stack = [])
    (hpending : ∀ w, r.pending w = []) : Sound base ⟨r, .empty, 0, 0⟩ [] where
  reached := .begin hruns htickets hstack
  tidy := Loop.tidy_empty
  accounted := rfl
  ended := by simp
  ticket := by simp
  home := by simp [hruns]
  nodup w := by simp [hpending w]
  kept := by simp [Waits]
  waits := by simp [hpending]

/-- A change of the runner by which the wares of tickets stay, and no more futures go from a ware than have ended. -/
theorem change {r : Runner} (h : Sound base v τ) (hreached : Reached base r τ')
    (hwareOf : ∀ t < v.runner.tickets.size, t < r.tickets.size ∧ r.wareOf t = v.runner.wareOf t)
    (hhome : ∀ i < r.runs.size, (r.run i).ware < r.wares.size)
    (hpending : ∀ w, (r.pending w).Sublist (v.runner.pending w))
    (hgone : ∀ w, ∀ f ∈ v.runner.pending w, v.loop.isDone f = false → f ∈ r.pending w) :
    Sound base { v with runner := r } τ' := by
  have hwaits (w f : Nat) : Waits { v with runner := r } w f ↔ v.Waits w f := by
    refine exists_congr fun t => and_congr_right fun hp => ?_
    rw [(hwareOf t (h.ticket _ hp)).2]
  refine ⟨hreached, h.tidy, h.accounted, h.ended, fun p hp => (hwareOf p.1 (h.ticket p hp)).1, hhome, ?_, ?_, ?_⟩
  · exact fun w => (h.nodup w).sublist (hpending w)
  · exact fun w f hf hopen => hgone w f (h.kept w f ((hwaits w f).mp hf) hopen) hopen
  · exact fun w f hf => (hwaits w f).mpr (h.waits w f ((hpending w).subset hf))

theorem tables (h : Sound base v τ) : v.runner.Tables base τ none := (Runner.consistent_of_reached h.reached).toTables

theorem register (h : Sound base v τ) (ware step : Nat) : Sound base v (τ ++ [.registered ware step]) :=
  { h with reached := h.reached.register ware step }

theorem equip (h : Sound base v τ) {wares : Array Ware} (steps : Array Treeworks.Step)
    (hsize : v.runner.wares.size ≤ wares.size) (hpending : ∀ w, (wares.getD w default).pending = v.runner.pending w) :
    Sound base { v with runner := { v.runner with wares := wares, steps := steps } } τ := by
  have hsame (w : Nat) : ({ v.runner with wares := wares, steps := steps } : Runner).pending w = v.runner.pending w := hpending w
  refine h.change (h.reached.equip wares steps) (fun t ht => ⟨ht, rfl⟩) ?_ (fun w => ?_) fun w f hf _ => ?_
  · exact fun i hi => Nat.lt_of_lt_of_le (h.home i hi) hsize
  · rw [hsame]
  · rwa [hsame]

/-- When an ended future is discarded, no open one goes. -/
theorem mem_discard (hdone : v.loop.isDone f = true) (t : Nat) {w g : Nat} (hg : g ∈ v.runner.pending w)
    (hopen : v.loop.isDone g = false) : g ∈ (v.runner.discard t f).pending w := by
  have hne : g ≠ f := fun heq => by
    rw [heq, hdone] at hopen
    cases hopen
  rw [Runner.pending_discard]
  split
  · exact (List.mem_erase_of_ne hne).mpr hg
  · exact hg

/-- Of what a ware waits for, a move takes nothing away but a future that has ended. -/
theorem pending_move (hpermits : v.Permits m) (w : Nat) : ((v.move m).runner.pending w).Sublist (v.runner.pending w) ∧
    ∀ f ∈ v.runner.pending w, v.loop.isDone f = false → f ∈ (v.move m).runner.pending w := by
  show ((v.runner.react m).1.pending w).Sublist _ ∧ ∀ f ∈ _, _ → f ∈ (v.runner.react m).1.pending w
  cases m with
  | watching f => exact hpermits.elim
  | settled t f e =>
    rw [Runner.pending_congr (Runner.wares_settled _ t f e)]
    exact ⟨v.runner.sublist_discard t f w, fun g => mem_discard hpermits t⟩
  | start | found | next | returned | raised =>
    rw [Runner.pending_congr (Runner.wares_react rfl)]
    exact ⟨List.Sublist.refl _, fun f hf _ => hf⟩

theorem move (h : Sound base v τ) (hm : v.runner.Admits (τ.registry base) m) (hpermits : v.Permits m) :
    Sound base (v.move m) (τ ++ v.runner.deeds m) := by
  have hreached := h.reached.move hm
  have htables := (Runner.consistent_of_reached hreached).toTables
  have hhome := h.tables.ware_lt_react htables (fun w inputs done hstart => by subst hstart; exact hpermits) h.home
  exact h.change hreached (fun t ht => h.tables.wareOf_eq htables ht) hhome (fun w => (pending_move hpermits w).1)
    fun w => (pending_move hpermits w).2

section
variable {a : Activation} {rest : List Activation}

/-- The step whose awaitable is settled, and its ware. -/
theorem settling (h : Sound base v τ) (hs : v.runner.stack = a :: rest) (ha : a.wait = .settling t) :
    t < v.runner.tickets.size ∧ (v.runner.run a.run).ware = v.runner.wareOf t ∧
      v.runner.wareOf t < v.runner.wares.size := by
  obtain ⟨ht, hrun⟩ := h.tables.waits a (hs ▸ List.mem_cons_self) t (.inr ha)
  exact ⟨ht, by rw [← hrun, Runner.wareOf], h.home _ (h.tables.ticket t ht).1⟩

/-- The futures that a ware waits for when one more is watched. -/
theorem mem_await (h : Sound base v τ) (cell : Nat) (hs : v.runner.stack = a :: rest) (ha : a.wait = .settling t) (w g : Nat) :
    g ∈ (v.await t f cell).runner.pending w ↔ g ∈ v.runner.pending w ∨ v.runner.wareOf t = w ∧ g = f := by
  obtain ⟨-, hware, hlt⟩ := h.settling hs ha
  show g ∈ (v.runner.react (.watching f)).1.pending w ↔ _
  rw [Runner.pending_watching hs, hware]
  by_cases hw : v.runner.wareOf t = w
  · rw [if_pos ⟨hw, hw ▸ hlt⟩]
    by_cases hin : f ∈ v.runner.pending w
    · simp only [List.contains_eq_mem, hin, decide_true, if_true, iff_self_or]
      rintro ⟨-, rfl⟩
      exact hin
    · simp [hin, hw]
  · rw [if_neg fun h => hw h.1]
    simp [hw]

theorem nodup_await (h : Sound base v τ) (cell : Nat) (hs : v.runner.stack = a :: rest) (w : Nat) :
    ((v.await t f cell).runner.pending w).Nodup := by
  show ((v.runner.react (.watching f)).1.pending w).Nodup
  rw [Runner.pending_watching hs]
  split
  · split
    · exact h.nodup w
    · rename_i hnew
      simp only [List.contains_eq_mem, decide_eq_true_eq] at hnew
      refine List.nodup_append.mpr ⟨h.nodup w, List.nodup_singleton f, fun g hg g' hg' heq => ?_⟩
      rw [heq, List.mem_singleton.mp hg'] at hg
      exact hnew hg
  · exact h.nodup w

/-- From when a future is watched for a step, the ware of the step waits for it. -/
theorem await (h : Sound base v τ) (cell : Nat) (hs : v.runner.stack = a :: rest) (ha : a.wait = .settling t)
    (hf : f < v.loop.futures.size) : Sound base (v.await t f cell) (τ ++ v.runner.deeds (.watching f)) := by
  have hreached := h.reached.move (.watching f hs ha)
  have htables := (Runner.consistent_of_reached hreached).toTables
  obtain ⟨ht, -, -⟩ := h.settling hs ha
  have hstays (u : Nat) (hu : u < v.runner.tickets.size) := h.tables.wareOf_eq htables hu
  have hmem := h.mem_await (f := f) cell hs ha
  have hwaits (w g : Nat) : (v.await t f cell).Waits w g ↔ v.Waits w g ∨ v.runner.wareOf t = w ∧ g = f := by
    constructor
    · rintro ⟨u, hu, hw⟩
      rcases Multiset.mem_cons.mp hu with heq | hu
      · cases heq
        exact .inr ⟨(hstays t ht).2.symm.trans hw, rfl⟩
      · exact .inl ⟨u, hu, (hstays u (h.ticket _ hu)).2.symm.trans hw⟩
    · rintro (⟨u, hu, hw⟩ | ⟨hw, rfl⟩)
      · exact ⟨u, Multiset.mem_cons_of_mem hu, (hstays u (h.ticket _ hu)).2.trans hw⟩
      · exact ⟨t, Multiset.mem_cons_self _ _, (hstays t ht).2.trans hw⟩
  have hdone (g : Nat) : (v.await t f cell).loop.isDone g = v.loop.isDone g := v.loop.isDone_watch _ g
  refine ⟨hreached, v.loop.tidy_watch t cell h.tidy, ?_, ?_, ?_, ?_, h.nodup_await cell hs, ?_, ?_⟩
  · show (t, f) ::ₘ v.awaited = (v.loop.watch f ⟨.settled t f, cell⟩).held + v.dropped
    rw [Loop.held_watch v.loop t cell hf, h.accounted, Multiset.singleton_add, Multiset.cons_add]
  · exact fun p hp => (hdone p.2).trans (h.ended p hp)
  · intro p hp
    rcases Multiset.mem_cons.mp hp with rfl | hp
    · exact (hstays t ht).1
    · exact (hstays p.1 (h.ticket p hp)).1
  · exact h.tables.ware_lt_react htables (fun _ _ _ h => by cases h) h.home
  · intro w g hg hopen
    rw [hdone] at hopen
    exact (hmem w g).mpr (((hwaits w g).mp hg).imp_left fun hg => h.kept w g hg hopen)
  · intro w g hg
    exact (hwaits w g).mpr (((hmem w g).mp hg).imp_left (h.waits w g))

end

theorem loop (h : Sound base v τ) {l : Loop} (hl : v.loop.Goes l) : Sound base { v with loop := l } τ where
  reached := h.reached
  tidy := hl.goesOn.tidy h.tidy
  accounted := hl.goesOn.held ▸ h.accounted
  ended := fun p hp => hl.goesOn.done _ (h.ended p hp)
  ticket := h.ticket
  home := h.home
  nodup := h.nodup
  kept := fun w f hf hopen => h.kept w f hf <| by
    rw [Bool.eq_false_iff] at hopen ⊢
    exact fun hdone => hopen (hl.goesOn.done f hdone)
  waits := h.waits

/-- The settle callback that is first in the queue is for a future that has ended. -/
theorem isDone_of_ready (h : Sound base v τ) {cell : Nat} {rest : List Handle}
    (hready : v.loop.ready = ⟨.settled t f, cell⟩ :: rest) : v.loop.isDone f = true :=
  h.tidy.queued (t, f) (by rw [hready]; exact List.mem_cons_self)

/-- When a settle callback begins to run, its ware waits for no open future less. -/
theorem tell (h : Sound base v τ) {cell : Nat} {rest : List Handle}
    (hready : v.loop.ready = ⟨.settled t f, cell⟩ :: rest) : Sound base (v.tell t f rest) τ := by
  have hdone := h.isDone_of_ready hready
  have hheld : v.loop.held = (t, f) ::ₘ ({ v.loop with ready := rest } : Loop).held := by
    rw [Loop.held_ready [⟨.settled t f, cell⟩] rest hready]
    exact Multiset.singleton_add _ _
  have hsub {p : Nat × Nat} (hp : p ∈ v.awaited.erase (t, f)) : p ∈ v.awaited := Multiset.mem_of_mem_erase hp
  refine ⟨h.reached.equip _ v.runner.steps, (h.tidy.ready [⟨.settled t f, cell⟩] rest hready).1, ?_, h.ended,
    fun p hp => h.ticket p (hsub hp), ?_, fun w => ?_, fun w g hg hopen => ?_, fun w g hg => ?_⟩
  · show v.awaited.erase (t, f) = _
    rw [h.accounted, hheld, Multiset.cons_add, Multiset.erase_cons_head]
    rfl
  · intro i hi
    exact (h.home i hi).trans_eq (Runner.size_wares_updateWare v.runner _ _).symm
  · exact (h.nodup w).sublist (v.runner.sublist_discard t f w)
  · obtain ⟨u, hu, hw⟩ := hg
    exact mem_discard hdone t (h.kept w g ⟨u, hsub hu, hw⟩ hopen) hopen
  · obtain ⟨u, hu, hw⟩ := h.waits w g ((v.runner.sublist_discard t f w).subset hg)
    refine ⟨u, (Multiset.mem_erase_of_ne fun heq => ?_).mpr hu, hw⟩
    -- The ware that the callback tells no longer has the future, which it had once.
    obtain ⟨htu, hfg⟩ := Prod.mk.inj heq
    rw [htu] at hw
    change g ∈ (v.runner.discard t f).pending w at hg
    rw [hfg, Runner.pending_discard, if_pos hw, (h.nodup w).mem_erase_iff] at hg
    exact hg.1 rfl

theorem drop (h : Sound base v τ) : Sound base v.drop τ := by
  obtain ⟨htidy, hdone⟩ := h.tidy.ready _ [] (List.append_nil _).symm
  refine { h with tidy := htidy, accounted := ?_, ended := fun p hp => ?_ }
  · show v.awaited = ({ v.loop with ready := [] } : Loop).held + (v.dropped + ↑(Loop.settles v.loop.ready))
    rw [h.accounted, Loop.held_ready _ [] (List.append_nil _).symm]
    ac_rfl
  · rcases Multiset.mem_add.mp hp with hp | hp
    · exact h.ended p hp
    · exact hdone p (Multiset.mem_coe.mp hp)

/-- Whatever happens next keeps the invariant. -/
theorem step (h : Sound base v τ) (hstep : Step base v τ v' τ') : Sound base v' τ' := by
  cases hstep with
  | register ware step => exact h.register ware step
  | equip steps hsize hpending => exact h.equip steps hsize hpending
  | move hm hpermits => exact h.move hm hpermits
  | await cell hs ha hf => exact h.await cell hs ha hf
  | loop hl => exact h.loop hl
  | tell hready => exact h.tell hready
  | drop => exact h.drop

/-- What a ware waits for stays with it until it has ended. -/
theorem stays (h : Sound base v τ) (hstep : Step base v τ v' τ') (hf : f ∈ v.runner.pending w)
    (hopen : v.loop.isDone f = false) : f ∈ v'.runner.pending w := by
  cases hstep with
  | register | loop | drop => exact hf
  | equip steps hsize hpending =>
    rw [← hpending] at hf
    exact hf
  | move hm hpermits => exact (pending_move hpermits w).2 f hf hopen
  | await cell hs ha => exact (h.mem_await cell hs ha w f).mpr (.inl hf)
  | tell hready => exact mem_discard (h.isDone_of_ready hready) _ hf hopen

/-- Where the settle callback is that a run waits for. -/
theorem watched (h : Sound base v τ) {p : Nat × Nat} (hp : p ∈ v.awaited) :
    p ∈ Loop.settles (v.loop.future p.2).watchers ∨ p ∈ Loop.settles v.loop.ready ∨ p ∈ v.dropped := by
  rw [h.accounted, Loop.held, Multiset.mem_add, Multiset.mem_add, Multiset.mem_coe, Multiset.mem_coe] at hp
  rcases hp with (hp | hp) | hp
  · left
    obtain ⟨x, hx, hp⟩ := List.mem_flatMap.mp hp
    obtain ⟨i, hi, rfl⟩ := List.getElem_of_mem hx
    have hfuture : v.loop.future i = v.loop.futures.toList[i] := by
      rw [Array.length_toList] at hi
      simp [Loop.future, hi]
    rw [← hfuture] at hp
    rwa [h.tidy.watching i p hp]
  · exact .inr (.inl hp)
  · exact .inr (.inr hp)

end Sound

theorem sound_of_kept (h : Kept base v τ) : Sound base v τ := by
  induction h with
  | begin hruns htickets hstack hpending => exact .begin hruns htickets hstack hpending
  | step _ hstep ih => exact ih.step hstep

/-- Whatever steps and callbacks do, and however futures end: an open future is among those that a ware holds if and only
if a run of the ware waits for it; one leaves them by no step before it has ended; the settle callback of each that is
waited for watches it while it is open, and is in the queue afterwards unless it was dropped with the queue; and when
none is left to run, the ware holds nothing. -/
theorem pending_iff_waits (h : Kept base v τ) (w : Nat) :
    (∀ f, v.loop.isDone f = false → (f ∈ v.runner.pending w ↔ v.Waits w f)) ∧
    (∀ f ∈ v.runner.pending w, ∀ v' τ', Step base v τ v' τ' → f ∉ v'.runner.pending w → v.loop.isDone f = true) ∧
    (∀ f ∈ v.runner.pending w, v.Waits w f) ∧
    ((∀ f, ¬v.Waits w f) → v.runner.pending w = []) ∧
    v.awaited = v.loop.held + v.dropped ∧
    ∀ p ∈ v.awaited, if v.loop.isDone p.2 then p ∈ Loop.settles v.loop.ready ∨ p ∈ v.dropped
      else p ∈ Loop.settles (v.loop.future p.2).watchers := by
  have hsound := sound_of_kept h
  refine ⟨fun f hopen => ?_, fun f hf v' τ' hstep hgone => ?_, hsound.waits w, fun hnone => ?_, hsound.accounted, fun p hp => ?_⟩
  · exact ⟨hsound.waits w f, fun hwaits => hsound.kept w f hwaits hopen⟩
  · by_contra hopen
    exact hgone (hsound.stays hstep hf (Bool.eq_false_iff.mpr hopen))
  · exact List.eq_nil_iff_forall_not_mem.mpr fun f hf => hnone f (hsound.waits w f hf)
  · have hwatched := hsound.watched hp
    split
    · rename_i hdone
      rw [hsound.tidy.ended _ hdone] at hwatched
      exact hwatched.resolve_left List.not_mem_nil
    · rename_i hopen
      refine hwatched.resolve_right ?_
      rintro (hready | hdropped)
      · exact hopen (hsound.tidy.queued p hready)
      · exact hopen (hsound.ended p hdropped)

theorem Kept.move (h : Kept base v τ) (hm : v.runner.Admits (τ.registry base) m) (hpermits : v.Permits m) :
    Kept base (v.move m) (τ ++ v.runner.deeds m) := h.step (.move hm hpermits)

/-- A ware with one step, and a loop with two open futures. -/
def twoOpen : Vigil where
  runner :=
    { wares := #[.new .null (.list 0) none]
      steps := #[⟨.function 0, .str "step", some 0, some 0, false, []⟩]
      runs := #[]
      tickets := #[]
      stack := [] }
  loop := Loop.empty.newFuture.2.newFuture.2
  awaited := 0
  dropped := 0

/-- A run whose step gives a future, up to where that is watched. -/
def run (v : Vigil) (t f : Nat) : Vigil :=
  (((v.move (.start 0 [] (.hook .bail))).move (.found (some 0))).move (.returned (.future f) true)).await t f 0

/-- Of three runs two wait for one future, which ends with an error. The settle callback of the first run has told it
of that, and the callback of the run has raised; that of the second run is in the queue, and the third run waits for
the other future. -/
def halfTold : Vigil :=
  let v := ((twoOpen.run 0 0).run 1 0).run 2 1
  let v := { v with loop := v.loop.settle 0 (.error (.fault 0)) }
  ((v.tell 0 0 [⟨.settled 1 0, 0⟩]).move (.settled 0 0 (some (.fault 0)))).move (.raised (.fault 0) true)

theorem pending_iff_waits_halfTold : (∃ τ, Kept (fun _ => [0]) halfTold τ) ∧ halfTold.awaited = {(1, 0), (2, 1)} ∧
    halfTold.runner.pending 0 = [1] ∧ halfTold.Waits 0 1 ∧ (1, 0) ∈ Loop.settles halfTold.loop.ready ∧
    (2, 1) ∈ Loop.settles (halfTold.loop.future 1).watchers := by
  have hbegin : Kept (fun _ => [0]) { twoOpen with loop := .empty } [] :=
    .begin rfl rfl rfl fun w => by cases w <;> rfl
  have hopen : Kept (fun _ => [0]) twoOpen [] := (hbegin.step (.loop .newFuture)).step (.loop .newFuture)
  have hstart {v : Vigil} {τ : History} (h : Kept (fun _ => [0]) v τ) (hware : 0 < v.runner.wares.size) :=
    h.move (.start 0 [] (.hook .bail)) hware
  have hfirst := (((hstart hopen (by decide)).move (m := .found (some 0)) (by decide) trivial).move
    (m := .returned (.future 0) true) (by decide) trivial).step (.await (f := 0) 0 rfl rfl (by decide))
  have hsecond := (((hstart hfirst (by decide)).move (m := .found (some 0)) (by decide) trivial).move
    (m := .returned (.future 0) true) (by decide) trivial).step (.await (f := 0) 0 rfl rfl (by decide))
  have hthird := (((hstart hsecond (by decide)).move (m := .found (some 0)) (by decide) trivial).move
    (m := .returned (.future 1) true) (by decide) trivial).step (.await (f := 1) 0 rfl rfl (by decide))
  have hended := (hthird.step (.loop (.settle 0 (.error (.fault 0))))).step (.tell rfl)
  have hkept := (hended.move (m := .settled 0 0 (some (.fault 0))) (by decide) rfl).move
    (m := .raised (.fault 0) true) (by decide) trivial
  obtain ⟨hiff, -, -, -, -, hwatched⟩ := pending_iff_waits hkept 0
  refine ⟨⟨_, hkept⟩, by decide, by decide, (hiff 1 (by decide)).mp (by decide), ?_, ?_⟩
  · exact (hwatched (1, 0) (by decide)).resolve_right (by decide)
  · exact hwatched (2, 1) (by decide)

end Vigil
end Treeworks
