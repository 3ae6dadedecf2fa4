import Treeworks.Value

/-! The runner of ordered steps. A ware has a list of steps; a run passes its inputs to them one at a time
and reports to a completion callback. The runner never calls anything and never looks into the list itself:
it takes one move at a time and answers with what has to be done next, so what it asks for may come back to
it. -/
namespace Treeworks

/-- A step that was made of a callable. `required` and `accepted` count parameters that take an input by
position; they are absent when the step takes any number or its parameters cannot be read. -/
structure Step where
  callee : Value
  name : Value
  required : Option Nat
  accepted : Option Nat
  takesContext : Bool
  attrs : Table Value
  deriving DecidableEq, Inhabited

namespace Step

/-- A step that requires more than the inputs is completed by its continuation. -/
def takesNext (step : Step) (arity : Nat) : Bool :=
  match step.required with
  | some n => arity < n
  | none => false

/-- The leading inputs that the step accepts. -/
def arguments (step : Step) (inputs : List Value) : List Value :=
  match step.accepted with
  | some n => inputs.take n
  | none => inputs

end Step

/-- The list of steps in registration order, the context that steps may ask for, and the futures still waited
for. A ware that takes attachers keeps the ones it has applied. -/
structure Ware where
  context : Value
  steps : Value
  attachers : Option Value
  pending : List Nat
  attrs : Table Value
  deriving DecidableEq, Inhabited

/-- A ware with a list for its steps. One that takes attachers has a list for them. -/
def Ware.new (context steps : Value) (attachers : Option Value) : Ware := ⟨context, steps, attachers, [], []⟩

/-- A run in flight: the next step to invoke, whether the last one has completed, and whether the
loop over the steps is active. -/
structure Run where
  ware : Nat
  inputs : List Value
  done : Value
  index : Nat
  ready : Bool
  driving : Bool
  deriving DecidableEq, Inhabited

/-- The continuation of one invoked step, and whether it was given to the step. Only its first call counts. -/
structure Ticket where
  run : Nat
  step : Nat
  given : Bool
  called : Bool
  deriving DecidableEq, Inhabited

/-- What an activation waits for: the step at an index, or the end of an outside call. -/
inductive Wait
  | seeking
  | step (ticket : Nat)
  | settling (ticket : Nat)
  | failed
  | finished
  deriving DecidableEq, Inhabited

/-- An entry of the call stack: a run whose code waits for something from outside, and whether it is the entry
that drives the run. -/
structure Activation where
  run : Nat
  drives : Bool
  wait : Wait
  deriving DecidableEq, Inhabited

/-- The state of all wares, steps and runs. -/
structure Runner where
  wares : Array Ware
  steps : Array Step
  runs : Array Run
  tickets : Array Ticket
  stack : List Activation
  deriving DecidableEq, Inhabited

/-- What can happen to the runner: a new run, a call of a continuation, a settled future, or what the topmost
activation waits for: the step at an index, if there are so many, or the end of an outside call. -/
inductive Move
  | start (ware : Nat) (inputs : List Value) (done : Value)
  | found (step : Option Nat)
  | next (ticket : Nat) (error : Option Value)
  | settled (ticket future : Nat) (error : Option Value)
  | returned (value : Value) (awaitable : Bool)
  | raised (error : Value) (ordinary : Bool)
  | watching (future : Nat)
  deriving DecidableEq, Inhabited

/-- What has to be done next. After `seek` the runner is told what stands at the index, after `invoke`, `await`
and `call` how it ended; `leave` and `fail` end the move that came from outside. -/
inductive Directive
  | seek (steps : Value) (index : Nat)
  | invoke (step : Step) (args : List Value) (context : Option Value)
  | await (value : Value)
  | call (done : Value) (args : List Value)
  | leave
  | fail (error : Value)
  deriving DecidableEq, Inhabited

/-- What the runner has to say in the log. -/
inductive Note
  | stepFailed (step error : Value)
  | duplicate (step : Value)
  deriving DecidableEq, Inhabited

namespace Runner

/-- The ware at a place. -/
def ware (r : Runner) (i : Nat) : Ware := r.wares.getD i default

/-- The step at a place. -/
def step (r : Runner) (i : Nat) : Step := r.steps.getD i default

/-- The run at a place. -/
def run (r : Runner) (i : Nat) : Run := r.runs.getD i default

/-- The ticket at a place. -/
def ticket (r : Runner) (i : Nat) : Ticket := r.tickets.getD i default

/-- Changes a ware. -/
def updateWare (r : Runner) (i : Nat) (f : Ware → Ware) : Runner :=
  { r with wares := r.wares.modify i f }

/-- Changes a run. -/
def updateRun (r : Runner) (i : Nat) (f : Run → Run) : Runner :=
  { r with runs := r.runs.modify i f }

/-- Changes a step. -/
def updateStep (r : Runner) (i : Nat) (f : Step → Step) : Runner :=
  { r with steps := r.steps.modify i f }

/-- Adds a ware. -/
def addWare (r : Runner) (w : Ware) : Nat × Runner :=
  (r.wares.size, { r with wares := r.wares.push w })

/-- Adds a step. -/
def addStep (r : Runner) (step : Step) : Nat × Runner :=
  (r.steps.size, { r with steps := r.steps.push step })

/-- The step that a ticket is for. -/
def stepOf (r : Runner) (ticket : Nat) : Step := r.step (r.ticket ticket).step

/-- Puts an activation on the stack. -/
def push (r : Runner) (a : Activation) : Runner := { r with stack := a :: r.stack }

/-- The arguments of a step, its own continuation last if it takes one. -/
def argumentsOf (step : Step) (inputs : List Value) (ticket : Nat) : List Value :=
  if step.takesNext inputs.length then inputs ++ [.next ticket] else step.arguments inputs

/-- The loop of a driven run: while the last step has completed, the next one is looked for. -/
def drive (r : Runner) (i : Nat) : Runner × Directive :=
  let run := r.run i
  if run.ready then
    ((r.updateRun i fun run => { run with ready := false }).push ⟨i, true, .seeking⟩,
      .seek (r.ware run.ware).steps run.index)
  else (r.updateRun i fun run => { run with driving := false }, .leave)

/-- The next step of a run has been looked for: it is invoked, or completion is reported when there is none. -/
def proceed (r : Runner) (i : Nat) : Option Nat → Runner × Directive
  | none =>
    let run := r.run i
    (r.push ⟨i, true, .finished⟩, .call run.done (.null :: run.inputs))
  | some k =>
    let run := r.run i
    let step := r.step k
    let t := r.tickets.size
    let r := r.updateRun i fun run => { run with index := run.index + 1 }
    let r := { r with tickets := r.tickets.push ⟨i, k, step.takesNext run.inputs.length, false⟩ }
    (r.push ⟨i, true, .step t⟩,
      .invoke step (argumentsOf step run.inputs t)
        (if step.takesContext then some (r.ware run.ware).context else none))

/-- A completion without error lets the run go on; an error goes to the completion callback. -/
def advance (r : Runner) (i : Nat) (drives : Bool) : Option Value → Runner × Directive
  | some e => (r.push ⟨i, drives, .failed⟩, .call (r.run i).done [e])
  | none =>
    let r := r.updateRun i fun run => { run with ready := true }
    if drives then r.drive i
    else if (r.run i).driving then (r, .leave)
    else (r.updateRun i fun run => { run with driving := true }).drive i

/-- Goes on with the loop after a call that changed nothing, or leaves. -/
def resume (r : Runner) (i : Nat) (drives : Bool) : Runner × Directive :=
  if drives then r.drive i else (r, .leave)

/-- A call of a continuation: the first one advances the run, a later one is only noted. -/
def complete (r : Runner) (t : Nat) (drives : Bool) (error : Option Value) :
    Runner × List Note × Directive :=
  let ticket := r.ticket t
  if ticket.called then
    let (r, d) := r.resume ticket.run drives
    (r, [.duplicate (r.stepOf t).name], d)
  else
    let r := { r with tickets := r.tickets.modify t fun ticket => { ticket with called := true } }
    let (r, d) := r.advance ticket.run drives error
    (r, [], d)

/-- An error that leaves an activation ends the loop it drives. -/
def abandon (r : Runner) (a : Activation) (error : Value) : Runner × Directive :=
  (if a.drives then r.updateRun a.run fun run => { run with driving := false } else r, .fail error)

/-- The future of a ticket is no longer waited for. -/
def discard (r : Runner) (t future : Nat) : Runner :=
  r.updateWare (r.run (r.ticket t).run).ware fun w => { w with pending := w.pending.erase future }

/-- A step or its awaitable has failed: noted, then reported through the continuation. -/
def failStep (r : Runner) (t : Nat) (error : Value) : Runner × List Note × Directive :=
  let (r, notes, d) := r.complete t true (some error)
  (r, .stepFailed (r.stepOf t).name error :: notes, d)

/-- The outside call of an activation has returned. -/
def returned (r : Runner) (a : Activation) (value : Value) (awaitable : Bool) : Runner × List Note × Directive :=
  match a.wait with
  | .seeking | .finished => (r.updateRun a.run fun run => { run with driving := false }, [], .leave)
  | .failed =>
    let (r, d) := r.resume a.run a.drives
    (r, [], d)
  | .settling t => r.complete t true (if value.isFault then some value else none)
  | .step t =>
    if (r.ticket t).given then
      let (r, d) := r.drive a.run
      (r, [], d)
    else if value.isFault then r.complete t true (some value)
    else if awaitable then (r.push ⟨a.run, true, .settling t⟩, [], .await value)
    else r.complete t true none

/-- What an activation waits for has raised. Only ordinary errors are failures of a step. -/
def raised (r : Runner) (a : Activation) (error : Value) (ordinary : Bool) :
    Runner × List Note × Directive :=
  let abandoned :=
    let (r, d) := r.abandon a error
    (r, [], d)
  match a.wait with
  | .seeking | .finished | .failed => abandoned
  | .step t => if ordinary && !(r.ticket t).called then r.failStep t error else abandoned
  | .settling t => if ordinary then r.failStep t error else abandoned

/-- Takes a move and says what has to be done next. -/
def react (r : Runner) : Move → Runner × List Note × Directive
  | .start ware inputs done =>
    let i := r.runs.size
    let r := { r with runs := r.runs.push ⟨ware, inputs, done, 0, false, false⟩ }
    let (r, d) := r.advance i false none
    (r, [], d)
  | .found step =>
    match r.stack with
    | [] => (r, [], .leave)
    | a :: rest =>
      let (r, d) := { r with stack := rest }.proceed a.run step
      (r, [], d)
  | .next t error => r.complete t false error
  | .settled t future error =>
    let run := (r.ticket t).run
    let r := r.updateWare (r.run run).ware fun w => { w with pending := w.pending.erase future }
    let (r, notes, d) := r.complete t false error
    match error with
    | some e => (r, .stepFailed (r.stepOf t).name e :: notes, d)
    | none => (r, notes, d)
  | .returned value awaitable =>
    match r.stack with
    | [] => (r, [], .leave)
    | a :: rest => { r with stack := rest }.returned a value awaitable
  | .raised error ordinary =>
    match r.stack with
    | [] => (r, [], .fail error)
    | a :: rest => { r with stack := rest }.raised a error ordinary
  | .watching future =>
    match r.stack with
    | [] => (r, [], .leave)
    | a :: rest =>
      let r := { r with stack := rest }
      let r := r.updateWare (r.run a.run).ware fun w =>
        { w with pending := if w.pending.contains future then w.pending else w.pending ++ [future] }
      let (r, d) := r.drive a.run
      (r, [], d)

end Runner
end Treeworks
