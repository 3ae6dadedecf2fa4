import Treeworks.Runner

/-! Histories of a runner: what happens to steps and completion callbacks, in order, when anything
that may come from outside does come. The lists of steps only grow; nothing else is asked of what
stands outside. -/
namespace Treeworks

/-- Something that happened: a step was registered with a ware, a run began, a step was invoked, a
completion was signalled through a ticket, an error of a step or of its awaitable was let through by the
runner, a completion callback was called, or a callback raised an error. -/
inductive Deed
  | registered (ware step : Nat)
  | started (run ware : Nat) (inputs : List Value) (done : Value)
  | invoked (run ticket step : Nat) (args : List Value)
  | completed (ticket : Nat) (error : Option Value)
  | escaped (run ticket : Nat) (error : Value)
  | reported (run : Nat) (done : Value) (args : List Value)
  | refused (run : Nat) (error : Value)
  deriving DecidableEq

/-- What happened so far, the latest last. -/
abbrev History := List Deed

namespace History

/-- The ticket and the step of an invocation for a run. -/
@[simp] def invocation? (i : Nat) : Deed → Option (Nat × Nat)
  | .invoked j t k _ => if j = i then some (t, k) else none
  | _ => none

/-- What is signalled through a ticket. -/
@[simp] def completion? (t : Nat) : Deed → Option (Option Value)
  | .completed u e => if u = t then some e else none
  | _ => none

/-- The callback of a run with what it is called with. -/
@[simp] def report? (i : Nat) : Deed → Option (Value × List Value)
  | .reported j done args => if j = i then some (done, args) else none
  | _ => none

/-- The step that is registered with a ware. -/
@[simp] def registration? (w : Nat) : Deed → Option Nat
  | .registered v k => if v = w then some k else none
  | _ => none

/-- The invocations for a run. -/
def invocations (τ : History) (i : Nat) : List (Nat × Nat) := τ.filterMap (invocation? i)

/-- The steps that were invoked for a run. -/
def invokedSteps (τ : History) (i : Nat) : List Nat := (τ.invocations i).map (·.2)

/-- The tickets of a run. -/
def tickets (τ : History) (i : Nat) : List Nat := (τ.invocations i).map (·.1)

/-- The first signal through a ticket; only that one counts. -/
def firstCompletion (τ : History) (t : Nat) : Option (Option Value) := τ.findSome? (completion? t)

/-- The calls of the completion callback of a run. -/
def reports (τ : History) (i : Nat) : List (Value × List Value) := τ.filterMap (report? i)

/-- The steps that were registered with a ware. -/
def registered (τ : History) (w : Nat) : List Nat := τ.filterMap (registration? w)

/-- The steps of a ware, from those it had before. -/
def registry (base : Nat → List Nat) (τ : History) (w : Nat) : List Nat := base w ++ τ.registered w

/-- Every step that was invoked for a run has completed, and without an error. -/
def Cleared (τ : History) (i : Nat) : Prop := ∀ t ∈ τ.tickets i, τ.firstCompletion t = some none

end History

/-- Whether a move begins a run. -/
def Move.begins : Move → Bool
  | .start .. => true
  | _ => false

/-- Whether a move tells what stands at an index. -/
def Move.finds : Move → Bool
  | .found _ => true
  | _ => false

namespace Runner

/-- The error that a value stands for when a step gives it. -/
def errorOf (v : Value) : Option Value := if v.isFault then some v else none

/-- What a move says by itself, before the runner has taken it. A step that was given its continuation
does not complete by returning, nor does one that returns an awaitable; an error that is no ordinary one
completes nothing. -/
def signals (r : Runner) : Move → History
  | .start ware inputs done => [.started r.runs.size ware inputs done]
  | .next t e | .settled t _ e => [.completed t e]
  | .returned v awaitable =>
    match r.stack with
    | ⟨_, _, .settling t⟩ :: _ => [.completed t (errorOf v)]
    | ⟨_, _, .step t⟩ :: _ =>
      if (r.ticket t).given || (awaitable && !v.isFault) then [] else [.completed t (errorOf v)]
    | _ => []
  | .raised e ordinary =>
    match r.stack with
    | ⟨_, _, .step t⟩ :: _ | ⟨_, _, .settling t⟩ :: _ => if ordinary then [.completed t (some e)] else []
    | ⟨i, _, .failed⟩ :: _ | ⟨i, _, .finished⟩ :: _ => [.refused i e]
    | _ => []
  | _ => []

/-- What the runner does about a move, as the directive says that it gives. -/
def demands (after : Runner) : Directive → History
  | .invoke _ args _ =>
    match after.stack with
    | ⟨i, _, .step t⟩ :: _ => [.invoked i t (after.ticket t).step args]
    | _ => []
  | .call done args =>
    match after.stack with
    | a :: _ => [.reported a.run done args]
    | [] => []
  | _ => []

/-- The errors of steps and their awaitables that the runner lets through. -/
def lets (r : Runner) : Move → Directive → History
  | .raised e _, .fail _ =>
    match r.stack with
    | ⟨i, _, .step t⟩ :: _ | ⟨i, _, .settling t⟩ :: _ => [.escaped i t e]
    | _ => []
  | _, _ => []

/-- What happens when a move is made. -/
def deeds (r : Runner) (m : Move) : History :=
  r.signals m ++ r.lets m (r.react m).2.2 ++ (r.react m).1.demands (r.react m).2.2

/-- The moves that can come. A continuation can be called and a future can be settled at any time and any
number of times; what the topmost activation waits for can end in any way it may. What stands at an index is
what the list of the ware has there. -/
inductive Admits (r : Runner) (steps : Nat → List Nat) : Move → Prop
  | start (ware : Nat) (inputs : List Value) (done : Value) : Admits r steps (.start ware inputs done)
  | found {a : Activation} {rest : List Activation} :
      r.stack = a :: rest → a.wait = .seeking →
        Admits r steps (.found (steps (r.run a.run).ware)[(r.run a.run).index]?)
  | next {t : Nat} {e : Option Value} : t < r.tickets.size → e ≠ some .null → Admits r steps (.next t e)
  | settled {t : Nat} (future : Nat) {e : Option Value} :
      t < r.tickets.size → e ≠ some .null → Admits r steps (.settled t future e)
  | returned {a : Activation} {rest : List Activation} (v : Value) (awaitable : Bool) :
      r.stack = a :: rest → a.wait ≠ .seeking → Admits r steps (.returned v awaitable)
  | raised {a : Activation} {rest : List Activation} {e : Value} (ordinary : Bool) :
      r.stack = a :: rest → a.wait ≠ .seeking → e ≠ .null → Admits r steps (.raised e ordinary)
  | watching {a : Activation} {rest : List Activation} {t : Nat} (future : Nat) :
      r.stack = a :: rest → a.wait = .settling t → Admits r steps (.watching future)

end Runner

/-- The runners that can come about from one without runs, with what happened on the way. Steps can be
registered with any ware, and wares and steps can be made and changed, at any time. -/
inductive Reached (base : Nat → List Nat) : Runner → History → Prop
  | begin {r : Runner} : r.runs = #[] → r.tickets = #[] → r.stack = [] → Reached base r []
  | register {r : Runner} {τ : History} (ware step : Nat) :
      Reached base r τ → Reached base r (τ ++ [.registered ware step])
  | equip {r : Runner} {τ : History} (wares : Array Ware) (steps : Array Step) :
      Reached base r τ → Reached base { r with wares := wares, steps := steps } τ
  | move {r : Runner} {τ : History} {m : Move} :
      Reached base r τ → r.Admits (τ.registry base) m → Reached base (r.react m).1 (τ ++ r.deeds m)

end Treeworks
