import Treeworks.Proofs.Run.Effect

/-! A runner on top of activations that were there before. What is done above them does not depend on them, nor on
a run that nothing above goes on with, nor on the futures that wares wait for. -/
namespace Treeworks.Runner
variable {r : Runner} {i j t : Nat} {f : Run → Run} {g : List Activation} {m : Move}

/-- A runner on top of other activations, with a run of it changed and the futures of its wares left out. -/
def atop (r : Runner) (i : Nat) (f : Run → Run) (ground : List Activation) : Runner where
  wares := r.wares.map fun w => { w with pending := [] }
  steps := r.steps
  runs := r.runs.modify i f
  tickets := r.tickets
  stack := r.stack ++ ground

/-- A change of one run is not seen by another, and no change is not seen at all. -/
def Unseen (f : Run → Run) (i j : Nat) : Prop := f = id ∨ j ≠ i

theorem modify_comm {f g : Run → Run} (h : Unseen f i j) (l : Array Run) :
    (l.modify j g).modify i f = (l.modify i f).modify j g := by
  apply Array.ext
  · simp
  intro k hk hk'
  simp only [Array.getElem_modify]
  rcases h with rfl | hij
  · simp
  · split
    · next hik =>
      subst hik
      simp [hij]
    · rfl

/-- Two changes of a run are one. -/
theorem updateRun_updateRun (r : Runner) (i : Nat) (f g : Run → Run) :
    (r.updateRun i f).updateRun i g = r.updateRun i (g ∘ f) := by
  simp only [updateRun, mk.injEq, and_true, true_and]
  apply Array.ext
  · simp
  intro k hk hk'
  simp only [Array.getElem_modify]
  split
  · rfl
  · rfl

/-- A change that keeps a run as it is changes nothing. -/
theorem updateRun_of_fixed (h : f (r.run i) = r.run i) : r.updateRun i f = r := by
  have hruns : r.runs.modify i f = r.runs := by
    apply Array.ext
    · simp
    intro k hk hk'
    rw [Array.getElem_modify]
    split
    · next hik =>
      subst hik
      have hrun : r.run i = r.runs[i] := by simp [Runner.run, hk']
      rw [← hrun, h]
    · rfl
  rw [updateRun, hruns]

/-- What an activation goes on with when what it waits for has ended: its run, also by way of its ticket. -/
def Goes (r : Runner) (a : Activation) (P : Nat → Prop) : Prop :=
  P a.run ∧ ∀ t, a.wait = .step t ∨ a.wait = .settling t → P (r.ticket t).run

/-- The runs that a move goes on with. Moves about futures are left out, and so are answers when nothing waits. -/
def Reaches (r : Runner) (P : Nat → Prop) : Move → Prop
  | .start .. => P r.runs.size
  | .next t _ => (r.ticket t).called = false → P (r.ticket t).run
  | .found _ | .returned .. | .raised .. => ∃ a rest, r.stack = a :: rest ∧ r.Goes a P
  | .settled .. | .watching _ => False

theorem Reaches.mono {P Q : Nat → Prop} (h : r.Reaches P m) (hPQ : ∀ i, P i → Q i) : r.Reaches Q m := by
  cases m with
  | settled | watching => cases h
  | start w inputs done => exact hPQ _ h
  | next t e => exact fun hcalled => hPQ _ (h hcalled)
  | found | returned | raised =>
    obtain ⟨a, rest, hs, ha, ht⟩ := h
    exact ⟨a, rest, hs, hPQ _ ha, fun t hw => hPQ _ (ht t hw)⟩

namespace Atop

@[simp] theorem ticket : (r.atop i f g).ticket t = r.ticket t := rfl

@[simp] theorem step (k : Nat) : (r.atop i f g).step k = r.step k := rfl

@[simp] theorem stepOf : (r.atop i f g).stepOf t = r.stepOf t := rfl

@[simp] theorem runs_size : (r.atop i f g).runs.size = r.runs.size := by simp [atop]

theorem run (h : Unseen f i j) : (r.atop i f g).run j = r.run j := by
  rcases h with rfl | hij
  · simp only [Runner.run, atop, Array.getD_eq_getD_getElem?, Array.getElem?_modify]
    split
    · simp
    · rfl
  · simp [Runner.run, atop, Array.getElem?_modify, Ne.symm hij]

theorem run_self (h : i < r.runs.size) : (r.atop i f g).run i = f (r.run i) := by
  simp [Runner.run, atop, Array.getElem_modify, h]

/-- The list of steps and the context of a ware are seen, its futures are not. -/
theorem ware (w : Nat) : ((r.atop i f g).ware w).steps = (r.ware w).steps ∧
    ((r.atop i f g).ware w).context = (r.ware w).context := by
  by_cases hw : w < r.wares.size
  · simp [Runner.ware, atop, hw]
  · simp [Runner.ware, atop, hw]

theorem updateRun (h : Unseen f i j) (k : Run → Run) :
    (r.updateRun j k).atop i f g = (r.atop i f g).updateRun j k := by
  simp only [Runner.updateRun, atop, modify_comm h]

/-- A change of the run itself comes after the one that it is seen with. -/
theorem updateRun_self (k : Run → Run) : (r.atop i f g).updateRun i k = r.atop i (k ∘ f) g := by
  have h := congrArg (fun s : Runner => s.runs) (updateRun_updateRun r i f k)
  simp only [Runner.updateRun, atop, mk.injEq, and_true, true_and]
  exact h

theorem updateRun_over (k : Run → Run) : (r.updateRun i k).atop i f g = r.atop i (f ∘ k) g := by
  have h := congrArg (fun s : Runner => s.runs) (updateRun_updateRun r i k f)
  simp only [Runner.updateRun, atop, mk.injEq, and_true, true_and]
  exact h

theorem of_fixed (h : f (r.run i) = r.run i) : r.atop i f g = r.atop i id g := by
  have hruns := congrArg (fun s : Runner => s.runs) (updateRun_of_fixed h)
  have hid := congrArg (fun s : Runner => s.runs) (updateRun_of_fixed (f := id) (r := r) (i := i) rfl)
  simp only [atop, mk.injEq, and_true, true_and]
  exact hruns.trans hid.symm

theorem updatePending (w : Nat) (p : List Nat → List Nat) :
    (r.updateWare w fun ware => { ware with pending := p ware.pending }).atop i f g = r.atop i f g := by
  simp only [Runner.updateWare, atop, mk.injEq, and_true]
  apply Array.ext
  · simp
  intro k hk hk'
  simp only [Array.getElem_map, Array.getElem_modify]
  split <;> rfl

theorem over_over (l : List Activation) : (r.atop i f g).atop j id l = r.atop i f (g ++ l) := by
  simp only [atop, mk.injEq, List.append_assoc, Array.map_map, and_true, true_and]
  refine ⟨rfl, ?_⟩
  apply Array.ext
  · simp
  intro k hk hk'
  simp [Array.getElem_modify]

/-- An activation that stands alone may as well stand beneath. -/
theorem push (h : r.stack = []) (a : Activation) : (r.push a).atop i f g = r.atop i f (a :: g) := by
  simp only [atop, Runner.push, h]
  rfl

theorem drive (h : Unseen f i j) : (r.atop i f g).drive j = ((r.drive j).1.atop i f g, (r.drive j).2) := by
  simp only [Runner.drive, run h, (ware _).1]
  split
  · rw [← updateRun h]
    rfl
  · rw [← updateRun h]

theorem resume {drives : Bool} (h : drives = true → Unseen f i j) :
    (r.atop i f g).resume j drives = ((r.resume j drives).1.atop i f g, (r.resume j drives).2) := by
  cases drives with
  | false => rfl
  | true => exact drive (h rfl)

theorem proceed (h : Unseen f i j) (k : Option Nat) :
    (r.atop i f g).proceed j k = ((r.proceed j k).1.atop i f g, (r.proceed j k).2) := by
  cases k with
  | none =>
    simp only [Runner.proceed, run h]
    rfl
  | some k =>
    have hcontext := (ware (r := r) (i := i) (f := f) (g := g) (r.run j).ware).2
    simp only [Runner.proceed, run h, step]
    rw [← updateRun h]
    refine Prod.ext rfl ?_
    by_cases htakes : (r.step k).takesContext
    · simp only [htakes, if_true]
      exact congrArg (fun v => Directive.invoke _ _ (some v)) hcontext
    · simp only [htakes]
      rfl

theorem advance (h : Unseen f i j) (drives : Bool) (e : Option Value) :
    (r.atop i f g).advance j drives e = ((r.advance j drives e).1.atop i f g, (r.advance j drives e).2) := by
  cases e with
  | some e =>
    simp only [Runner.advance, run h]
    rfl
  | none =>
    simp only [Runner.advance]
    rw [← updateRun h, run h]
    split
    · exact drive h
    · split
      · rfl
      · rw [← updateRun h]
        exact drive h

theorem complete (drives : Bool) (e : Option Value)
    (h : (drives = true ∨ (r.ticket t).called = false) → Unseen f i (r.ticket t).run) :
    (r.atop i f g).complete t drives e =
      ((r.complete t drives e).1.atop i f g, (r.complete t drives e).2) := by
  unfold Runner.complete
  dsimp only
  by_cases hcalled : (r.ticket t).called
  · rw [ticket, if_pos hcalled, if_pos hcalled, resume fun hd => h (.inl hd)]
    rfl
  · have hj : Unseen f i (r.ticket t).run := h (.inr (Bool.eq_false_iff.mpr hcalled))
    have hadvance := advance (r := r.mark t) (g := g) hj drives e
    rw [ticket, if_neg hcalled, if_neg hcalled]
    exact congrArg (fun p : Runner × Directive => (p.1, ([] : List Note), p.2)) hadvance

theorem failStep (e : Value) (h : Unseen f i (r.ticket t).run) :
    (r.atop i f g).failStep t e = ((r.failStep t e).1.atop i f g, (r.failStep t e).2) := by
  have hcomplete := complete (g := g) true (some e) fun _ => h
  unfold Runner.failStep
  rw [hcomplete]
  rfl

theorem abandon {a : Activation} (h : a.drives = true → Unseen f i a.run) (e : Value) :
    (r.atop i f g).abandon a e = ((r.abandon a e).1.atop i f g, (r.abandon a e).2) := by
  simp only [Runner.abandon]
  split
  · next hd => rw [← updateRun (h hd)]
  · rfl

theorem returned {a : Activation} (h : Goes r a (Unseen f i)) (v : Value) (awaitable : Bool) :
    (r.atop i f g).returned a v awaitable =
      ((r.returned a v awaitable).1.atop i f g, (r.returned a v awaitable).2) := by
  obtain ⟨k, drives, wait⟩ := a
  obtain ⟨hk, ht⟩ := h
  cases wait with
  | seeking | finished =>
    simp only [Runner.returned]
    rw [← updateRun hk]
  | failed =>
    simp only [Runner.returned]
    rw [resume fun _ => hk]
  | settling t => exact complete true _ fun _ => ht t (.inr rfl)
  | step t =>
    simp only [Runner.returned, ticket]
    split
    · rw [drive hk]
    · split
      · exact complete true _ fun _ => ht t (.inl rfl)
      · split
        · rfl
        · exact complete true _ fun _ => ht t (.inl rfl)

theorem raised {a : Activation} (h : Goes r a (Unseen f i)) (e : Value) (ordinary : Bool) :
    (r.atop i f g).raised a e ordinary =
      ((r.raised a e ordinary).1.atop i f g, (r.raised a e ordinary).2) := by
  obtain ⟨k, drives, wait⟩ := a
  obtain ⟨hk, ht⟩ := h
  have habandon := abandon (r := r) (g := g) (a := ⟨k, drives, wait⟩) (fun _ => hk) e
  cases wait with
  | seeking | failed | finished =>
    simp only [Runner.raised]
    rw [habandon]
  | step t =>
    have hfail := failStep (g := g) e (ht t (.inl rfl))
    simp only [Runner.raised]
    rw [habandon, hfail, ticket]
    by_cases hfails : ordinary && !(r.ticket t).called
    · rw [if_pos hfails, if_pos hfails]
    · rw [if_neg hfails, if_neg hfails]
  | settling t =>
    have hfail := failStep (g := g) e (ht t (.inr rfl))
    simp only [Runner.raised]
    rw [habandon, hfail]
    split
    · rfl
    · rfl

theorem addRun (h : Unseen f i r.runs.size) (x : Run) :
    ({ r with runs := r.runs.push x } : Runner).atop i f g =
      { r.atop i f g with runs := (r.atop i f g).runs.push x } := by
  simp only [atop, mk.injEq, and_true, true_and]
  apply Array.ext
  · simp
  intro k hk hk'
  rcases h with rfl | hi
  · simp [Array.getElem_modify, Array.getElem_push]
  · by_cases hsize : k < r.runs.size
    · simp [Array.getElem_modify, Array.getElem_push, hsize]
    · have hne : i ≠ k := by
        simp only [Array.size_modify, Array.size_push] at hk
        omega
      simp [Array.getElem_modify, Array.getElem_push, hsize, hne]

theorem stacked {a : Activation} {rest : List Activation} (hs : r.stack = a :: rest) :
    (r.atop i f g).stack = a :: (rest ++ g) ∧
      { r.atop i f g with stack := rest ++ g } = ({ r with stack := rest } : Runner).atop i f g := by
  refine ⟨?_, rfl⟩
  rw [atop, hs]
  rfl

/-- A move does above what it does without anything beneath. -/
theorem react (h : r.Reaches (Unseen f i) m) :
    (r.atop i f g).react m = ((r.react m).1.atop i f g, (r.react m).2) := by
  cases m with
  | settled | watching => cases h
  | start w inputs done =>
    simp only [Runner.react, runs_size]
    rw [← addRun h, advance h]
  | next t e =>
    refine complete false e fun hcalled => h ?_
    exact hcalled.resolve_left Bool.false_ne_true
  | found k =>
    obtain ⟨a, rest, hs, hgoes, -⟩ := h
    obtain ⟨hover, hrest⟩ := stacked (i := i) (f := f) (g := g) hs
    simp only [Runner.react, hs, hover]
    rw [hrest, proceed hgoes]
  | returned v awaitable =>
    obtain ⟨a, rest, hs, hgoes⟩ := h
    obtain ⟨hover, hrest⟩ := stacked (i := i) (f := f) (g := g) hs
    simp only [Runner.react, hs, hover]
    rw [hrest]
    exact returned (r := { r with stack := rest }) hgoes v awaitable
  | raised e ordinary =>
    obtain ⟨a, rest, hs, hgoes⟩ := h
    obtain ⟨hover, hrest⟩ := stacked (i := i) (f := f) (g := g) hs
    simp only [Runner.react, hs, hover]
    rw [hrest]
    exact raised (r := { r with stack := rest }) hgoes e ordinary

/-- What is demanded above is demanded by what stands there. -/
theorem demands {l s : List Activation} {d : Directive} (h : Puts l d s) (hs : r.stack = s) :
    (r.atop i f g).demands d = r.demands d := by
  have hover : (r.atop i f g).stack = s ++ g := by rw [atop, hs]
  cases h with
  | seek | await | leave | fail => rfl
  | invoke | failed | finished =>
    unfold Runner.demands
    rw [hover, hs]
    rfl

/-- What a move says above is said by what stands there. -/
theorem signals (h : r.Reaches (Unseen f i) m) : (r.atop i f g).signals m = r.signals m := by
  cases m with
  | settled | watching => cases h
  | start w inputs done => simp [Runner.signals]
  | next | found => rfl
  | returned | raised =>
    obtain ⟨⟨k, drives, wait⟩, rest, hs, -⟩ := h
    simp only [Runner.signals, (stacked hs).1, hs]
    cases wait <;> rfl

theorem lets (h : r.Reaches (Unseen f i) m) (d : Directive) : (r.atop i f g).lets m d = r.lets m d := by
  cases m with
  | settled | watching => cases h
  | start | next | found | returned => rfl
  | raised e ordinary =>
    obtain ⟨⟨k, drives, wait⟩, rest, hs, -⟩ := h
    cases d with
    | fail =>
      simp only [Runner.lets, (stacked hs).1, hs]
      cases wait <;> rfl
    | seek | invoke | await | call | leave => rfl

/-- The same happens by a move above as without anything beneath. -/
theorem deeds (h : r.Reaches (Unseen f i) m) : (r.atop i f g).deeds m = r.deeds m := by
  rw [Runner.deeds, Runner.deeds, react h, signals h, lets h, demands (puts_react r m) rfl]

end Atop

/-- Activations after something for a run was put on them, if anything. -/
def Onto (i : Nat) (l s : List Activation) : Prop := s = l ∨ ∃ a, a.run = i ∧ s = a :: l

namespace Onto

theorem drive (r : Runner) (i : Nat) : Onto i r.stack (r.drive i).1.stack := by
  unfold Runner.drive
  dsimp only
  split
  · exact .inr ⟨⟨i, true, .seeking⟩, rfl, rfl⟩
  · exact .inl rfl

theorem resume (r : Runner) (i : Nat) (drives : Bool) : Onto i r.stack (r.resume i drives).1.stack := by
  cases drives with
  | true => exact drive r i
  | false => exact .inl rfl

theorem proceed (r : Runner) (i : Nat) (k : Option Nat) : Onto i r.stack (r.proceed i k).1.stack := by
  cases k with
  | none => exact .inr ⟨⟨i, true, .finished⟩, rfl, rfl⟩
  | some k => exact .inr ⟨⟨i, true, .step r.tickets.size⟩, rfl, rfl⟩

theorem advance (r : Runner) (i : Nat) (drives : Bool) (e : Option Value) :
    Onto i r.stack (r.advance i drives e).1.stack := by
  cases e with
  | some e => exact .inr ⟨⟨i, drives, .failed⟩, rfl, rfl⟩
  | none =>
    simp only [Runner.advance]
    split
    · exact drive (r.updateRun i _) i
    · split
      · exact .inl rfl
      · exact drive ((r.updateRun i _).updateRun i _) i

theorem complete (r : Runner) (t : Nat) (drives : Bool) (e : Option Value) :
    Onto (r.ticket t).run r.stack (r.complete t drives e).1.stack := by
  unfold Runner.complete
  dsimp only
  split
  · exact resume r _ drives
  · exact advance (r.mark t) _ drives e

theorem abandon (r : Runner) (a : Activation) (e : Value) : Onto i r.stack (r.abandon a e).1.stack := by
  unfold Runner.abandon
  dsimp only
  split
  · exact .inl rfl
  · exact .inl rfl

theorem returned {a : Activation} (h : r.Goes a (· = a.run)) (v : Value) (awaitable : Bool) :
    Onto a.run r.stack (r.returned a v awaitable).1.stack := by
  obtain ⟨i, drives, wait⟩ := a
  obtain ⟨-, ht⟩ := h
  have hcomplete (t : Nat) (e : Option Value) (hrun : (r.ticket t).run = i) :
      Onto i r.stack (r.complete t true e).1.stack := by
    rw [← hrun]
    exact complete r t true e
  cases wait with
  | seeking | finished => exact .inl rfl
  | failed => exact resume r i drives
  | settling t => exact hcomplete t _ (ht t (.inr rfl))
  | step t =>
    simp only [Runner.returned]
    split
    · exact drive r i
    · split
      · exact hcomplete t _ (ht t (.inl rfl))
      · split
        · exact .inr ⟨⟨i, true, .settling t⟩, rfl, rfl⟩
        · exact hcomplete t _ (ht t (.inl rfl))

theorem raised {a : Activation} (h : r.Goes a (· = a.run)) (e : Value) (ordinary : Bool) :
    Onto a.run r.stack (r.raised a e ordinary).1.stack := by
  obtain ⟨i, drives, wait⟩ := a
  obtain ⟨-, ht⟩ := h
  have hfail (t : Nat) (hrun : (r.ticket t).run = i) : Onto i r.stack (r.failStep t e).1.stack := by
    rw [← hrun]
    exact complete r t true (some e)
  cases wait with
  | seeking | failed | finished => exact abandon r _ e
  | step t =>
    simp only [Runner.raised]
    split
    · exact hfail t (ht t (.inl rfl))
    · exact abandon r _ e
  | settling t =>
    simp only [Runner.raised]
    split
    · exact hfail t (ht t (.inr rfl))
    · exact abandon r _ e

/-- What stands somewhere afterwards stood there before, or is for the run that was gone on with. -/
theorem forall_run {P : Nat → Prop} {l s : List Activation} (h : Onto i l s) (hl : ∀ a ∈ l, P a.run) (hi : P i) :
    ∀ a ∈ s, P a.run := by
  rcases h with rfl | ⟨b, rfl, rfl⟩
  · exact hl
  · intro a ha
    rcases List.mem_cons.mp ha with rfl | ha
    · exact hi
    · exact hl a ha

/-- A move goes on with one run, and puts nothing on the stack for any other. -/
theorem react {P : Nat → Prop} (h : r.Reaches P m) (hl : ∀ a ∈ r.stack, P a.run)
    (hgoes : ∀ a rest, r.stack = a :: rest → r.Goes a (· = a.run)) : ∀ a ∈ (r.react m).1.stack, P a.run := by
  cases m with
  | settled | watching => cases h
  | start w inputs done =>
    exact (advance { r with runs := r.runs.push ⟨w, inputs, done, 0, false, false⟩ } _ false none).forall_run hl h
  | next t e =>
    by_cases hcalled : (r.ticket t).called
    · simpa [Runner.react, Runner.complete, hcalled, Runner.resume] using hl
    · exact (complete r t false e).forall_run hl (h (Bool.eq_false_iff.mpr hcalled))
  | found | returned | raised =>
    obtain ⟨a, rest, hs, ha, -⟩ := h
    have hrest : ∀ a ∈ rest, P a.run := fun b hb => hl b (by rw [hs]; exact List.mem_cons_of_mem _ hb)
    have hgo : ({ r with stack := rest } : Runner).Goes a (· = a.run) := hgoes a rest hs
    simp only [Runner.react, hs]
    first
    | exact (proceed { r with stack := rest } a.run _).forall_run hrest ha
    | exact (returned hgo _ _).forall_run hrest ha
    | exact (raised hgo _ _).forall_run hrest ha

end Onto

/-- A move keeps whether a ticket was given to its step. -/
theorem given_react (r : Runner) (m : Move) (ht : t < r.tickets.size) :
    ((r.react m).1.ticket t).given = (r.ticket t).given := by
  cases hm : m.begins with
  | false => exact ((Evolves.react r m hm).ticket t ht).2.2
  | true =>
    cases m with
    | start w inputs done =>
      exact ((Evolves.advance { r with runs := r.runs.push ⟨w, inputs, done, 0, false, false⟩ } _ false none).ticket t ht).2.2
    | found | next | settled | returned | raised | watching => cases hm

/-- What a move signals through no ticket is not signalled by it. -/
theorem firstCompletion_deeds (h : ∀ e, .completed t e ∉ r.signals m) : (r.deeds m).firstCompletion t = none := by
  rw [History.firstCompletion, List.findSome?_eq_none_iff]
  intro y hy
  cases y with
  | completed u e =>
    have hne : u ≠ t := by
      rintro rfl
      refine h e ?_
      rw [deeds, List.mem_append, List.mem_append] at hy
      rcases hy with (hy | hy) | hy
      · exact hy
      · unfold lets at hy
        split at hy
        · split at hy <;> simp at hy
        · simp at hy
      · unfold demands at hy
        split at hy
        · split at hy <;> simp at hy
        · split at hy <;> simp at hy
        · simp at hy
    simp [hne]
  | registered | started | invoked | escaped | reported | refused => rfl

theorem runs_size_start (r : Runner) (w : Nat) (inputs : List Value) (done : Value) :
    (r.react (.start w inputs done)).1.runs.size = r.runs.size + 1 := by
  have hadvance := Evolves.advance { r with runs := r.runs.push ⟨w, inputs, done, 0, false, false⟩ } r.runs.size false none
  have hruns : (r.react (.start w inputs done)).1.runs.size = (r.runs.push ⟨w, inputs, done, 0, false, false⟩).size :=
    hadvance.runs
  rw [hruns, Array.size_push]

/-- No move takes runs or tickets away. -/
theorem sizes_react (r : Runner) (m : Move) :
    r.runs.size ≤ (r.react m).1.runs.size ∧ r.tickets.size ≤ (r.react m).1.tickets.size := by
  cases hm : m.begins with
  | false => exact ⟨Nat.le_of_eq (Evolves.react r m hm).runs.symm, (Evolves.react r m hm).tickets⟩
  | true =>
    cases m with
    | start w inputs done =>
      refine ⟨?_, (Evolves.advance { r with runs := r.runs.push ⟨w, inputs, done, 0, false, false⟩ } _ false none).tickets⟩
      rw [runs_size_start]
      exact Nat.le_succ _
    | found | next | settled | returned | raised | watching => cases hm

end Treeworks.Runner
