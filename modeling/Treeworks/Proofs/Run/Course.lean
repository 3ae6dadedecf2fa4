import Treeworks.Proofs.Run.Ground

/-! What a run asks for when it goes on: an awaitable is waited for only when a step has returned it, and what drives
a run by itself comes to the next step, to the callback, or to an end. -/
namespace Treeworks.Runner
variable {r : Runner} {m : Move} {main i t : Nat}

theorem drive_ne_await (r : Runner) (i : Nat) (v : Value) : (r.drive i).2 ≠ .await v := by
  unfold Runner.drive
  dsimp only
  split
  · exact Directive.noConfusion
  · exact Directive.noConfusion

theorem resume_ne_await (r : Runner) (i : Nat) (drives : Bool) (v : Value) : (r.resume i drives).2 ≠ .await v := by
  cases drives with
  | true => exact drive_ne_await r i v
  | false => exact Directive.noConfusion

theorem advance_ne_await (r : Runner) (i : Nat) (drives : Bool) (e : Option Value) (v : Value) :
    (r.advance i drives e).2 ≠ .await v := by
  cases e with
  | some e => exact Directive.noConfusion
  | none =>
    simp only [advance]
    split
    · exact drive_ne_await _ i v
    · split
      · exact Directive.noConfusion
      · exact drive_ne_await _ i v

theorem complete_ne_await (r : Runner) (t : Nat) (drives : Bool) (e : Option Value) (v : Value) :
    (r.complete t drives e).2.2 ≠ .await v := by
  unfold Runner.complete
  dsimp only
  split
  · exact resume_ne_await r _ drives v
  · exact advance_ne_await _ _ drives e v

theorem raised_ne_await (r : Runner) (a : Activation) (e : Value) (ordinary : Bool) (v : Value) :
    (r.raised a e ordinary).2.2 ≠ .await v := by
  obtain ⟨i, drives, wait⟩ := a
  cases wait with
  | seeking | failed | finished => exact Directive.noConfusion
  | step t | settling t =>
    simp only [Runner.raised]
    split
    · exact complete_ne_await r t true (some e) v
    · exact Directive.noConfusion

/-- An awaitable is waited for when a step has returned it that was not given its continuation. -/
theorem await_of_returned {a : Activation} {v x : Value} {awaitable : Bool}
    (h : (r.returned a v awaitable).2.2 = .await x) : ∃ t, a.wait = .step t ∧ awaitable = true ∧
      (r.ticket t).given = false ∧ v.isFault = false ∧ (r.returned a v awaitable).1 = r.push ⟨a.run, true, .settling t⟩ := by
  obtain ⟨i, drives, wait⟩ := a
  cases wait with
  | seeking | finished => cases h
  | failed => exact absurd h (resume_ne_await r i drives x)
  | settling t => exact absurd h (complete_ne_await r t true _ x)
  | step t =>
    refine ⟨t, rfl, ?_⟩
    simp only [Runner.returned] at h ⊢
    split at h
    · exact absurd h (drive_ne_await r i x)
    · next hgiven =>
      split at h
      · exact absurd h (complete_ne_await r t true _ x)
      · next hfault =>
        split at h
        · next hawait => simp [hgiven, hfault, hawait]
        · exact absurd h (complete_ne_await r t true none x)

theorem await_of_react {x : Value} (hm : m.begins = true ∨ r.Reaches (fun _ => True) m) (h : (r.react m).2.2 = .await x) :
    ∃ a rest v t, m = .returned v true ∧ r.stack = a :: rest ∧ a.wait = .step t ∧ (r.ticket t).given = false ∧
      v.isFault = false ∧ (r.react m).1 = ({ r with stack := rest } : Runner).push ⟨a.run, true, .settling t⟩ := by
  cases m with
  | settled | watching => rcases hm with hm | hm <;> cases hm
  | start w inputs done => exact absurd h (advance_ne_await _ _ false none x)
  | next t e => exact absurd h (complete_ne_await r t false e x)
  | found k =>
    rcases hm with hm | ⟨a, rest, hs, -⟩
    · cases hm
    · simp only [Runner.react, hs] at h
      cases k with
      | none => cases h
      | some k => cases h
  | returned v awaitable =>
    rcases hm with hm | ⟨a, rest, hs, -⟩
    · cases hm
    · simp only [Runner.react, hs] at h ⊢
      obtain ⟨t, hwait, rfl, hgiven, hfault, hr⟩ := await_of_returned h
      exact ⟨a, rest, v, t, rfl, rfl, hwait, hgiven, hfault, hr⟩
  | raised e ordinary =>
    rcases hm with hm | ⟨a, rest, hs, -⟩
    · cases hm
    · simp only [Runner.react, hs] at h
      exact absurd h (raised_ne_await _ a e ordinary x)

/-- How a run goes on by itself: it looks for its next step, its callback is told of an error, or it leaves. -/
inductive Carries (i : Nat) (l : List Activation) : Directive → List Activation → Prop
  | leave : Carries i l .leave l
  | seek (steps : Value) (k : Nat) : Carries i l (.seek steps k) (⟨i, true, .seeking⟩ :: l)
  | call (done : Value) (args : List Value) : Carries i l (.call done args) (⟨i, true, .failed⟩ :: l)

namespace Carries

theorem drive (r : Runner) (i : Nat) : Carries i r.stack (r.drive i).2 (r.drive i).1.stack := by
  unfold Runner.drive
  dsimp only
  split
  · exact .seek _ _
  · exact .leave

theorem advance (r : Runner) (i : Nat) (drives : Bool) :
    Carries i r.stack (r.advance i drives none).2 (r.advance i drives none).1.stack := by
  have hready := drive (r.updateRun i fun run => { run with ready := true }) i
  have hdriving := drive ((r.updateRun i fun run => { run with ready := true }).updateRun i
    fun run => { run with driving := true }) i
  simp only [Runner.advance]
  split
  · exact hready
  · split
    · exact .leave
    · exact hdriving

theorem complete (r : Runner) (t : Nat) (e : Option Value) :
    Carries (r.ticket t).run r.stack (r.complete t true e).2.2 (r.complete t true e).1.stack := by
  unfold Runner.complete
  dsimp only
  split
  · exact drive r _
  · cases e with
    | none => exact advance (r.mark t) _ true
    | some e => exact .call _ _

theorem returned {a : Activation} (h : r.Goes a (· = a.run)) (hdrives : a.drives = true) {v : Value} {awaitable : Bool}
    (hawait : ∀ x, (r.returned a v awaitable).2.2 ≠ .await x) :
    Carries a.run r.stack (r.returned a v awaitable).2.2 (r.returned a v awaitable).1.stack := by
  obtain ⟨i, drives, wait⟩ := a
  obtain ⟨-, ht⟩ := h
  obtain rfl : drives = true := hdrives
  have hcomplete (t : Nat) (e : Option Value) (hrun : (r.ticket t).run = i) :
      Carries i r.stack (r.complete t true e).2.2 (r.complete t true e).1.stack := by
    rw [← hrun]
    exact complete r t e
  cases wait with
  | seeking | finished => exact .leave
  | failed => exact drive r i
  | settling t => exact hcomplete t _ (ht t (.inr rfl))
  | step t =>
    simp only [Runner.returned] at hawait ⊢
    split
    · exact drive r i
    · split
      · exact hcomplete t _ (ht t (.inl rfl))
      · split
        · next hgiven hfault hawaitable =>
          refine absurd ?_ (hawait v)
          simp [hgiven, hfault, hawaitable]
        · exact hcomplete t _ (ht t (.inl rfl))

theorem raised {a : Activation} (h : r.Goes a (· = a.run)) (hwait : a.wait = .step t)
    (hcalled : (r.ticket t).called = false) (e : Value) :
    Carries a.run r.stack (r.raised a e true).2.2 (r.raised a e true).1.stack := by
  obtain ⟨i, drives, wait⟩ := a
  obtain rfl : wait = .step t := hwait
  obtain rfl : (r.ticket t).run = i := h.2 t (.inl rfl)
  simp only [Runner.raised, hcalled, Bool.not_false, Bool.and_self, if_true]
  exact complete r t (some e)

end Carries

/-- What the last activation of a run may wait for when somebody works for it. A step that was not given its
continuation has not completed. -/
def Works (r : Runner) : Wait → Prop
  | .step t => (r.ticket t).given = false → (r.ticket t).called = false
  | .failed | .finished => True
  | .seeking | .settling _ => False

/-- Marks a run as driven. -/
def driven (run : Run) : Run := { run with driving := true }

/-- Marks a run as driven by nobody. -/
def resting (run : Run) : Run := { run with driving := false }

theorem driven_ne_id : driven ≠ id := by
  intro h
  have := congrFun h default
  cases congrArg Run.driving this

theorem ne_of_unseen (h : Unseen driven main i) : i ≠ main := h.resolve_left driven_ne_id

/-- A step that was not given its continuation has returned an awaitable. -/
theorem react_awaitable {v : Value} (hs : r.stack = [⟨i, true, .step t⟩]) (hgiven : (r.ticket t).given = false)
    (hfault : v.isFault = false) : r.react (.returned v true) =
      (({ r with stack := [] } : Runner).push ⟨i, true, .settling t⟩, [], .await v) := by
  have hticket : ({ r with stack := [] } : Runner).ticket t = r.ticket t := rfl
  simp [react, hs, Runner.returned, hticket, hgiven, hfault]

/-- A run that is not ready leaves when its awaitable is watched. -/
theorem react_watching (hs : r.stack = [⟨i, true, .settling t⟩]) (hready : (r.run i).ready = false) (future : Nat) :
    ∃ (w : Nat) (p : List Nat → List Nat), r.react (.watching future) = ((({ r with stack := [] } : Runner).updateWare w fun ware =>
      { ware with pending := p ware.pending }).updateRun i resting, [], .leave) := by
  refine ⟨(r.run i).ware, fun l => if l.contains future then l else l ++ [future], ?_⟩
  have hrun (j : Nat) : ({ r with stack := [] } : Runner).run j = r.run j := rfl
  simp [react, hs, drive, hrun, hready]
  rfl

/-- Two runners of which the first has a run driven go on with it in the same way when it is cleared. -/
theorem advance_driven {s : Runner} (hover : r.atop main id [] = s.atop main driven []) (hlt : main < s.runs.size)
    (hdriving : (s.run main).driving = false) (t : Nat) :
    ((r.mark t).advance main true none).1.atop main id [] = ((s.mark t).advance main false none).1.atop main id [] ∧
      ((r.mark t).advance main true none).2 = ((s.mark t).advance main false none).2 := by
  let ready (run : Run) : Run := { run with ready := true }
  have hfirst : (r.mark t).advance main true none = ((r.mark t).updateRun main ready).drive main := rfl
  have hsecond : (s.mark t).advance main false none = (((s.mark t).updateRun main ready).updateRun main driven).drive main := by
    have hrun : (((s.mark t).updateRun main ready).run main).driving = false := by
      rw [run_updateRun_self (s.mark t) main ready hlt]
      exact hdriving
    simp only [advance]
    rw [if_neg Bool.false_ne_true, hrun]
    rfl
  have hsame : ((r.mark t).updateRun main ready).atop main id [] =
      (((s.mark t).updateRun main ready).updateRun main driven).atop main id [] := by
    have hmark : (r.mark t).atop main id [] = (s.mark t).atop main driven [] := congrArg (·.mark t) hover
    rw [Atop.updateRun (.inl rfl), hmark, Atop.updateRun_self, updateRun_updateRun, Atop.updateRun_over]
    rfl
  have hdrive := Atop.drive (r := (r.mark t).updateRun main ready) (g := []) (f := id) (i := main) (j := main) (.inl rfl)
  rw [hsame, Atop.drive (.inl rfl)] at hdrive
  rw [hfirst, hsecond]
  exact ⟨(congrArg Prod.fst hdrive).symm, (congrArg Prod.snd hdrive).symm⟩

end Treeworks.Runner
