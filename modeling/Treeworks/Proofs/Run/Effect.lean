import Treeworks.Proofs.Run.Moves

/-! What a single move does: what it leaves as it is, what it puts on the stack, and what happens by it. -/
namespace Treeworks.Runner
variable {r r' r'' : Runner} {m : Move} {i t : Nat}

/-- A runner that has gone on without a new run. Its steps, the contexts of its wares and what its tickets are for are
as they were. -/
structure Evolves (r r' : Runner) : Prop where
  steps : r'.steps = r.steps
  context : ∀ w, (r'.ware w).context = (r.ware w).context
  runs : r'.runs.size = r.runs.size
  tickets : r.tickets.size ≤ r'.tickets.size
  ticket : ∀ t < r.tickets.size, (r'.ticket t).run = (r.ticket t).run ∧ (r'.ticket t).step = (r.ticket t).step ∧
    (r'.ticket t).given = (r.ticket t).given

namespace Evolves

theorem refl (r : Runner) : Evolves r r := ⟨rfl, fun _ => rfl, rfl, Nat.le_refl _, fun _ _ => ⟨rfl, rfl, rfl⟩⟩

theorem trans (h : Evolves r r') (h' : Evolves r' r'') : Evolves r r'' where
  steps := h'.steps.trans h.steps
  context := fun w => (h'.context w).trans (h.context w)
  runs := h'.runs.trans h.runs
  tickets := Nat.le_trans h.tickets h'.tickets
  ticket := by
    intro t ht
    obtain ⟨hrun, hstep, hgiven⟩ := h.ticket t ht
    obtain ⟨hrun', hstep', hgiven'⟩ := h'.ticket t (Nat.lt_of_lt_of_le ht h.tickets)
    exact ⟨hrun'.trans hrun, hstep'.trans hstep, hgiven'.trans hgiven⟩

theorem stepOf (h : Evolves r r') (ht : t < r.tickets.size) : r'.stepOf t = r.stepOf t := by
  rw [Runner.stepOf, Runner.stepOf, (h.ticket t ht).2.1, Runner.step, Runner.step, h.steps]

theorem stacked (r : Runner) (l : List Activation) : Evolves r { r with stack := l } :=
  ⟨rfl, fun _ => rfl, rfl, Nat.le_refl _, fun _ _ => ⟨rfl, rfl, rfl⟩⟩

theorem push (r : Runner) (a : Activation) : Evolves r (r.push a) := stacked r _

theorem updateRun (r : Runner) (i : Nat) (f : Run → Run) : Evolves r (r.updateRun i f) :=
  ⟨rfl, fun _ => rfl, size_runs_updateRun r i f, Nat.le_refl _, fun _ _ => ⟨rfl, rfl, rfl⟩⟩

theorem mark (r : Runner) (t : Nat) : Evolves r (r.mark t) where
  steps := rfl
  context := fun _ => rfl
  runs := rfl
  tickets := by simp
  ticket := by
    intro u hu
    by_cases htu : t = u
    · subst htu
      rw [ticket_mark_self r t hu]
      exact ⟨rfl, rfl, rfl⟩
    · rw [ticket_mark_of_ne r u t htu]
      exact ⟨rfl, rfl, rfl⟩

theorem addTicket (r : Runner) (x : Ticket) : Evolves r { r with tickets := r.tickets.push x } where
  steps := rfl
  context := fun _ => rfl
  runs := rfl
  tickets := by simp
  ticket := by
    intro t ht
    rw [ticket_addTicket_of_ne r t x (Nat.ne_of_lt ht)]
    exact ⟨rfl, rfl, rfl⟩

theorem updatePending (r : Runner) (w : Nat) (f : List Nat → List Nat) :
    Evolves r (r.updateWare w fun ware => { ware with pending := f ware.pending }) :=
  ⟨rfl, fun v => (ware_updatePending r w f v).2, rfl, Nat.le_refl _, fun _ _ => ⟨rfl, rfl, rfl⟩⟩

theorem drive (r : Runner) (i : Nat) : Evolves r (r.drive i).1 := by
  unfold Runner.drive
  dsimp only
  split
  · exact (updateRun r i _).trans (push _ _)
  · exact updateRun r i _

theorem resume (r : Runner) (i : Nat) (drives : Bool) : Evolves r (r.resume i drives).1 := by
  cases drives with
  | true => exact drive r i
  | false => exact refl r

theorem proceed (r : Runner) (i : Nat) (step : Option Nat) : Evolves r (r.proceed i step).1 := by
  cases step with
  | none => exact push r _
  | some k => exact ((updateRun r i _).trans (addTicket _ _)).trans (push _ _)

theorem advance (r : Runner) (i : Nat) (drives : Bool) (e : Option Value) : Evolves r (r.advance i drives e).1 := by
  cases e with
  | some e => exact push r _
  | none =>
    simp only [Runner.advance]
    have hready := updateRun r i fun run => { run with ready := true }
    split
    · exact hready.trans (drive _ i)
    · split
      · exact hready
      · exact (hready.trans (updateRun _ i _)).trans (drive _ i)

theorem complete (r : Runner) (t : Nat) (drives : Bool) (e : Option Value) : Evolves r (r.complete t drives e).1 := by
  unfold Runner.complete
  dsimp only
  split
  · exact resume r _ drives
  · exact (mark r t).trans (advance _ _ drives e)

theorem abandon (r : Runner) (a : Activation) (e : Value) : Evolves r (r.abandon a e).1 := by
  unfold Runner.abandon
  dsimp only
  split
  · exact updateRun r _ _
  · exact refl r

theorem returned (r : Runner) (a : Activation) (v : Value) (awaitable : Bool) :
    Evolves r (r.returned a v awaitable).1 := by
  unfold Runner.returned
  split
  · exact updateRun r _ _
  · exact updateRun r _ _
  · exact resume r _ _
  · exact complete r _ true _
  · split
    · exact drive r _
    · split
      · exact complete r _ true _
      · split
        · exact push r _
        · exact complete r _ true none

theorem raised (r : Runner) (a : Activation) (e : Value) (ordinary : Bool) : Evolves r (r.raised a e ordinary).1 := by
  have habandon := abandon r a e
  obtain ⟨i, drives, wait⟩ := a
  cases wait with
  | seeking | finished | failed => exact habandon
  | step t =>
    simp only [Runner.raised]
    split
    · exact complete r t true (some e)
    · exact habandon
  | settling t =>
    simp only [Runner.raised]
    split
    · exact complete r t true (some e)
    · exact habandon

/-- Any move that begins no run. -/
theorem react (r : Runner) (m : Move) (hm : m.begins = false) : Evolves r (r.react m).1 := by
  cases m with
  | start w inputs done => cases hm
  | next t e => exact complete r t false e
  | settled t future e =>
    have hsettle := updatePending r (r.run (r.ticket t).run).ware fun l => l.erase future
    cases e with
    | none => exact hsettle.trans (complete _ t false none)
    | some e => exact hsettle.trans (complete _ t false (some e))
  | found step =>
    simp only [Runner.react]
    split
    · exact refl r
    · exact (stacked r _).trans (proceed _ _ step)
  | returned v awaitable =>
    simp only [Runner.react]
    split
    · exact refl r
    · exact (stacked r _).trans (returned _ _ v awaitable)
  | raised e ordinary =>
    simp only [Runner.react]
    split
    · exact refl r
    · exact (stacked r _).trans (raised _ _ e ordinary)
  | watching future =>
    simp only [Runner.react]
    split
    · exact refl r
    · exact ((stacked r _).trans
        (updatePending _ _ fun l => if l.contains future then l else l ++ [future])).trans (drive _ _)

end Evolves

/-- What a directive puts on the stack: the activation that waits for what is asked for. -/
inductive Puts (l : List Activation) : Directive → List Activation → Prop
  | seek (steps : Value) (index i : Nat) : Puts l (.seek steps index) (⟨i, true, .seeking⟩ :: l)
  | invoke (step : Step) (args : List Value) (context : Option Value) (i t : Nat) :
      Puts l (.invoke step args context) (⟨i, true, .step t⟩ :: l)
  | await (v : Value) (i t : Nat) : Puts l (.await v) (⟨i, true, .settling t⟩ :: l)
  | failed (done : Value) (args : List Value) (i : Nat) (drives : Bool) :
      Puts l (.call done args) (⟨i, drives, .failed⟩ :: l)
  | finished (done : Value) (args : List Value) (i : Nat) : Puts l (.call done args) (⟨i, true, .finished⟩ :: l)
  | leave : Puts l .leave l
  | fail (e : Value) : Puts l (.fail e) l

namespace Puts

theorem drive (r : Runner) (i : Nat) : Puts r.stack (r.drive i).2 (r.drive i).1.stack := by
  unfold Runner.drive
  dsimp only
  split
  · exact .seek _ _ i
  · exact .leave

theorem resume (r : Runner) (i : Nat) (drives : Bool) : Puts r.stack (r.resume i drives).2 (r.resume i drives).1.stack := by
  cases drives with
  | true => exact drive r i
  | false => exact .leave

theorem proceed (r : Runner) (i : Nat) (step : Option Nat) :
    Puts r.stack (r.proceed i step).2 (r.proceed i step).1.stack := by
  cases step with
  | none => exact .finished _ _ i
  | some k => exact .invoke _ _ _ i _

theorem advance (r : Runner) (i : Nat) (drives : Bool) (e : Option Value) :
    Puts r.stack (r.advance i drives e).2 (r.advance i drives e).1.stack := by
  cases e with
  | some e => exact .failed _ _ i drives
  | none =>
    have hready := drive (r.updateRun i fun run => { run with ready := true }) i
    have hdriving := drive ((r.updateRun i fun run => { run with ready := true }).updateRun i
      fun run => { run with driving := true }) i
    simp only [Runner.advance]
    split
    · exact hready
    · split
      · exact .leave
      · exact hdriving

theorem complete (r : Runner) (t : Nat) (drives : Bool) (e : Option Value) :
    Puts r.stack (r.complete t drives e).2.2 (r.complete t drives e).1.stack := by
  unfold Runner.complete
  dsimp only
  split
  · exact resume r _ drives
  · exact advance (r.mark t) _ drives e

theorem abandon (r : Runner) (a : Activation) (e : Value) : Puts r.stack (r.abandon a e).2 (r.abandon a e).1.stack := by
  unfold Runner.abandon
  dsimp only
  split
  · exact .fail e
  · exact .fail e

theorem returned (r : Runner) (a : Activation) (v : Value) (awaitable : Bool) :
    Puts r.stack (r.returned a v awaitable).2.2 (r.returned a v awaitable).1.stack := by
  unfold Runner.returned
  split
  · exact .leave
  · exact .leave
  · exact resume r _ _
  · exact complete r _ true _
  · split
    · exact drive r _
    · split
      · exact complete r _ true _
      · split
        · exact .await v _ _
        · exact complete r _ true none

theorem raised (r : Runner) (a : Activation) (e : Value) (ordinary : Bool) :
    Puts r.stack (r.raised a e ordinary).2.2 (r.raised a e ordinary).1.stack := by
  have habandon := abandon r a e
  obtain ⟨i, drives, wait⟩ := a
  cases wait with
  | seeking | finished | failed => exact habandon
  | step t =>
    simp only [Runner.raised]
    split
    · exact complete r t true (some e)
    · exact habandon
  | settling t =>
    simp only [Runner.raised]
    split
    · exact complete r t true (some e)
    · exact habandon

end Puts

/-- What stays on the stack when a move is taken. -/
def below (r : Runner) : Move → List Activation
  | .start .. | .next .. | .settled .. => r.stack
  | .found _ | .returned .. | .raised .. | .watching _ => r.stack.tail

/-- A move puts on the stack what its directive says. -/
theorem puts_react (r : Runner) (m : Move) : Puts (r.below m) (r.react m).2.2 (r.react m).1.stack := by
  cases m with
  | start w inputs done => exact .advance { r with runs := r.runs.push ⟨w, inputs, done, 0, false, false⟩ } _ false none
  | next t e => exact .complete r t false e
  | settled t future e =>
    cases e with
    | none => exact .complete (r.updateWare _ _) t false none
    | some e => exact .complete (r.updateWare _ _) t false (some e)
  | found step =>
    simp only [Runner.react, below]
    cases hs : r.stack with
    | nil =>
      dsimp only
      rw [hs]
      exact .leave
    | cons a rest => exact .proceed { r with stack := rest } a.run step
  | returned v awaitable =>
    simp only [Runner.react, below]
    cases hs : r.stack with
    | nil =>
      dsimp only
      rw [hs]
      exact .leave
    | cons a rest => exact .returned { r with stack := rest } a v awaitable
  | raised e ordinary =>
    simp only [Runner.react, below]
    cases hs : r.stack with
    | nil =>
      dsimp only
      rw [hs]
      exact .fail e
    | cons a rest => exact .raised { r with stack := rest } a e ordinary
  | watching future =>
    simp only [Runner.react, below]
    cases hs : r.stack with
    | nil =>
      dsimp only
      rw [hs]
      exact .leave
    | cons a rest => exact .drive (Runner.updateWare { r with stack := rest } _ _) a.run

end Treeworks.Runner
