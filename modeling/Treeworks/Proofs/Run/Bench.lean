import Treeworks.Proofs.Run.Standing

/-! One run with everybody who works for it: its steps, their awaitables and its callback. An awaitable is either
brought to its end at once, or by a loop after the run has left. Whoever is at work may also register steps, call
continuations and run other wares. -/
namespace Treeworks
open Runner

/-- How the awaitables of a run are brought to their ends: in the run itself, or by a loop that has a future for
each ticket. -/
inductive Mode
  | direct
  | queued (future : Nat → Nat)

/-- Something that is done by who is at work: a step is registered, a ware is run, a continuation is called, or the
work ends with a value or with an error. -/
inductive Doing
  | use (ware : Nat) (step : Step)
  | start (ware : Nat) (inputs : List Value) (done : Value)
  | next (ticket : Nat) (error : Option Value)
  | ret (value : Value) (awaitable : Bool)
  | raise (error : Value) (ordinary : Bool)

namespace Doing

/-- What may be done by who is at work, when it is one run that is looked at. Continuations are called by those they
were given to. Only steps of this run return awaitables. A step of this run raises before its continuation is called,
if at all, and only an ordinary error, and so do its awaitables; its callback does not raise. -/
def Permitted (main : Nat) (r : Runner) : Option (Nat × Wait) → Doing → Prop
  | none, _ => False
  | some _, .use .. | some _, .start .. => True
  | some _, .next t e => t < r.tickets.size ∧ (r.ticket t).given = true ∧ e ≠ some .null
  | some (i, _), .ret _ awaitable => awaitable = true → i = main
  | some (i, .step t), .raise e ordinary => e ≠ .null ∧ (i = main → ordinary = true ∧ (r.ticket t).called = false)
  | some (i, .settling _), .raise e ordinary => e ≠ .null ∧ (i = main → ordinary = true)
  | some (i, _), .raise e _ => e ≠ .null ∧ i ≠ main

instance decidablePermitted (main : Nat) (r : Runner) :
    (who : Option (Nat × Wait)) → (d : Doing) → Decidable (d.Permitted main r who)
  | none, _ => isFalse id
  | some _, .use .. | some _, .start .. => isTrue trivial
  | some _, .next t e => inferInstanceAs (Decidable (t < r.tickets.size ∧ (r.ticket t).given = true ∧ e ≠ some .null))
  | some (i, _), .ret _ awaitable => inferInstanceAs (Decidable (awaitable = true → i = main))
  | some (i, .step t), .raise e ordinary =>
    inferInstanceAs (Decidable (e ≠ .null ∧ (i = main → ordinary = true ∧ (r.ticket t).called = false)))
  | some (i, .settling _), .raise e ordinary =>
    inferInstanceAs (Decidable (e ≠ .null ∧ (i = main → ordinary = true)))
  | some (i, .seeking), .raise e _ | some (i, .failed), .raise e _ | some (i, .finished), .raise e _ =>
    inferInstanceAs (Decidable (e ≠ .null ∧ i ≠ main))

end Doing

/-- The runner with what has happened so far, and the ticket whose awaitable the loop has yet to bring to its end,
with its future. -/
structure Bench where
  runner : Runner
  history : History
  waiting : Option (Nat × Nat)

namespace Bench
variable {base : Nat → List Nat} {main t : Nat} {mode : Mode} {b : Bench} {m : Move} {d : Doing}

/-- Who is at work, by the run that waits for it: what the topmost activation has asked for, or else the awaitable
that the loop has. Nobody is while a run looks for its next step. -/
def atWork (b : Bench) : Option (Nat × Wait) :=
  match b.runner.stack with
  | [] => b.waiting.map fun x => ((b.runner.ticket x.1).run, .settling x.1)
  | a :: _ => if a.wait = .seeking then none else some (a.run, a.wait)

/-- What a run shows of itself: what has happened, and who is at work. -/
def told (b : Bench) : History × Option (Nat × Wait) := (b.history, b.atWork)

/-- A move is made. -/
def make (b : Bench) (m : Move) : Bench :=
  { b with runner := (b.runner.react m).1, history := b.history ++ b.runner.deeds m }

/-- What stands at the index that the topmost activation looks at. -/
def sought (base : Nat → List Nat) (b : Bench) : Option Nat :=
  match b.runner.stack with
  | [] => none
  | a :: _ => (b.history.registry base (b.runner.run a.run).ware)[(b.runner.run a.run).index]?

/-- Sees to what needs nobody's work: the next step is looked up, and an awaitable goes to the loop if there is
one. -/
def attend (mode : Mode) (base : Nat → List Nat) (b : Bench) : Directive → Bench
  | .seek .. => b.make (.found (b.sought base))
  | .await _ =>
    match mode, settling b.runner.stack with
    | .queued future, some t => { b.make (.watching (future t)) with waiting := some (t, future t) }
    | _, _ => b
  | _ => b
where
  /-- The ticket that the topmost activation settles. -/
  settling : List Activation → Option Nat
    | ⟨_, _, .settling t⟩ :: _ => some t
    | _ => none

/-- A move is made and seen to. -/
def move (mode : Mode) (base : Nat → List Nat) (b : Bench) (m : Move) : Bench :=
  (b.make m).attend mode base (b.runner.react m).2.2

/-- The loop's awaitable ends when nobody else is at work. -/
def awaited (b : Bench) : Option (Nat × Nat) := if b.runner.stack = [] then b.waiting else none

/-- Something is done. What ends the loop's awaitable settles its future. -/
def take (mode : Mode) (base : Nat → List Nat) (b : Bench) : Doing → Bench
  | .use ware step =>
    { b with runner := (b.runner.addStep step).2, history := b.history ++ [.registered ware b.runner.steps.size] }
  | .start ware inputs done => b.move mode base (.start ware inputs done)
  | .next t e => b.move mode base (.next t e)
  | .ret v awaitable =>
    match b.awaited with
    | some (t, future) => { b with waiting := none }.move mode base (.settled t future (errorOf v))
    | none => b.move mode base (.returned v awaitable)
  | .raise e ordinary =>
    match b.awaited with
    | some (t, future) => { b with waiting := none }.move mode base (.settled t future (some e))
    | none => b.move mode base (.raised e ordinary)

/-- What becomes of a sequence of doings, as long as each may be done. -/
def after (mode : Mode) (base : Nat → List Nat) (main : Nat) (b : Bench) : List Doing → Option Bench
  | [] => some b
  | d :: ds =>
    if d.Permitted main b.runner b.atWork then (b.take mode base d).after mode base main ds else none

/-- A ware is run when nobody is at work. -/
def begin (mode : Mode) (base : Nat → List Nat) (r : Runner) (τ : History) (ware : Nat) (inputs : List Value)
    (done : Value) : Bench :=
  (⟨r, τ, none⟩ : Bench).move mode base (.start ware inputs done)

/-- Who is at work is known by the activation on top, or it is the loop's awaitable. -/
theorem atWork_cons {a : Activation} {rest : List Activation} {w : Nat × Wait} (hs : b.runner.stack = a :: rest)
    (hw : b.atWork = some w) : a.wait ≠ .seeking ∧ w = (a.run, a.wait) := by
  simp only [atWork, hs] at hw
  split at hw
  · cases hw
  · next hseeking => exact ⟨hseeking, (Option.some.inj hw).symm⟩

theorem reached_make (h : Reached base b.runner b.history) (hm : b.runner.Admits (b.history.registry base) m) :
    Reached base (b.make m).runner (b.make m).history := h.move hm

/-- What is seen to by itself can come. -/
theorem reached_attend (h : Reached base b.runner b.history) {l : List Activation} {dir : Directive}
    (hputs : Puts l dir b.runner.stack) : Reached base (b.attend mode base dir).runner (b.attend mode base dir).history := by
  cases dir with
  | invoke | call | leave | fail => exact h
  | seek steps k =>
    refine reached_make h ?_
    obtain ⟨i, hs⟩ : ∃ i, b.runner.stack = ⟨i, true, .seeking⟩ :: l := by
      cases hs : b.runner.stack with
      | nil => rw [hs] at hputs; cases hputs
      | cons a rest => rw [hs] at hputs; cases hputs; exact ⟨_, rfl⟩
    rw [sought, hs]
    exact .found hs rfl
  | await v =>
    obtain ⟨i, t, hs⟩ : ∃ i t, b.runner.stack = ⟨i, true, .settling t⟩ :: l := by
      cases hs : b.runner.stack with
      | nil => rw [hs] at hputs; cases hputs
      | cons a rest => rw [hs] at hputs; cases hputs; exact ⟨_, _, rfl⟩
    cases mode with
    | direct => exact h
    | queued future =>
      simp only [attend, hs, attend.settling]
      exact reached_make h (.watching (future t) hs rfl)

theorem reached_move (h : Reached base b.runner b.history) (hm : b.runner.Admits (b.history.registry base) m) :
    Reached base (b.move mode base m).runner (b.move mode base m).history :=
  reached_attend (reached_make h hm) (puts_react b.runner m)

/-- What ends can come, when it is not the loop's awaitable. -/
theorem stack_of_not_awaited {w : Nat × Wait} (hw : b.atWork = some w) (hawaited : b.awaited = none) :
    ∃ a rest, b.runner.stack = a :: rest ∧ a.wait ≠ .seeking ∧ w = (a.run, a.wait) := by
  cases hs : b.runner.stack with
  | nil =>
    rw [awaited, if_pos hs] at hawaited
    rw [atWork, hs, hawaited] at hw
    cases hw
  | cons a rest =>
    obtain ⟨hseeking, hwho⟩ := atWork_cons hs hw
    exact ⟨a, rest, rfl, hseeking, hwho⟩

theorem waiting_of_awaited {x : Nat × Nat} (h : b.awaited = some x) : b.runner.stack = [] ∧ b.waiting = some x := by
  unfold awaited at h
  split at h
  · next hs => exact ⟨hs, h⟩
  · cases h

/-- An error that may be raised is one. -/
theorem ne_null_of_permitted {w : Nat × Wait} {e : Value} {ordinary : Bool}
    (h : (Doing.raise e ordinary).Permitted main b.runner (some w)) : e ≠ .null := by
  obtain ⟨i, wait⟩ := w
  cases wait <;> exact h.1

/-- What may be done can come. -/
theorem reached_take (mode : Mode) (h : Reached base b.runner b.history) (hd : d.Permitted main b.runner b.atWork)
    (hwaiting : ∀ x, b.waiting = some x → x.1 < b.runner.tickets.size) :
    Reached base (b.take mode base d).runner (b.take mode base d).history := by
  obtain ⟨w, hw⟩ : ∃ w, b.atWork = some w := by
    cases hw : b.atWork with
    | none => rw [hw] at hd; cases hd
    | some w => exact ⟨w, rfl⟩
  rw [hw] at hd
  cases d with
  | use ware step => exact (h.register ware b.runner.steps.size).equip b.runner.wares (b.runner.steps.push step)
  | start ware inputs done => exact reached_move h (.start ware inputs done)
  | next t e => exact reached_move h (.next hd.1 hd.2.2)
  | ret v awaitable =>
    cases hawaited : b.awaited with
    | none =>
      obtain ⟨a, rest, hs, ha, -⟩ := stack_of_not_awaited hw hawaited
      simp only [take, hawaited]
      exact reached_move h (.returned v awaitable hs ha)
    | some x =>
      have hx := hwaiting x (waiting_of_awaited hawaited).2
      simp only [take, hawaited]
      exact reached_move (b := { b with waiting := none }) h (.settled x.2 hx (errorOf_ne_null v))
  | raise e ordinary =>
    have he : e ≠ .null := ne_null_of_permitted hd
    cases hawaited : b.awaited with
    | none =>
      obtain ⟨a, rest, hs, ha, -⟩ := stack_of_not_awaited hw hawaited
      simp only [take, hawaited]
      exact reached_move h (.raised ordinary hs ha he)
    | some x =>
      have hx := hwaiting x (waiting_of_awaited hawaited).2
      simp only [take, hawaited]
      exact reached_move (b := { b with waiting := none }) h (.settled x.2 hx fun hnull => he (Option.some.inj hnull))

end Bench
end Treeworks
