import Treeworks.Log.Journal
import Treeworks.Callable

/-! Runs in the world: the moves of the runner are made, what it has to say is logged, and what it
asks for is done until the move has ended. -/
namespace Treeworks.Work

/-- Logs what the runner has to say. -/
def logNote : Note → Work Unit
  | .stepFailed step error => do
    let s ← store
    log "unified.framework.ware" .debug "ware.step.error"
      [("step", step), ("error_type", .str (s.typeName error))]
  | .duplicate step => log "unified.framework.ware" .warning "ware.next.duplicate" [("step", step)]

/-- Makes a move of the runner and tells what has to be done next. -/
def react (move : Move) : Work Directive := do
  let (notes, directive) ← make fun s =>
    let (runner, notes, directive) := s.runner.react move
    ((notes, directive), { s with runner := runner })
  let _ ← each logNote notes
  return directive

/-- The error that an attempt ended with. -/
def failure? {α : Type} : Except Value α → Option Value
  | .ok _ => none
  | .error e => some e

/-- Does work while an error is being handled, if there is one. -/
def handlingAny {α : Type} (error : Option Value) (w : Work α) : Work α :=
  match error with
  | some e => handling e w
  | none => w

/-- Tells the runner how the outside call that it waits for has ended. -/
def answer (result : Except Value Value) : Work Directive := do
  match result with
  | .ok v => react (.returned v (← isAwaitable v))
  | .error e => handling e do react (.raised e (← isOrdinary e))

/-- The future of something awaitable: a future is its own, anything else is run by a new task in
a copy of the current logging context. -/
def futureOf (awaitable : Value) : Work Nat := do
  match awaitable with
  | .future i => return i
  | .coroutine i =>
    let cell ← newCell
    makeInLoop fun l => l.newTask i cell
  | v =>
    let wrapper ← newCoroutine (match v with | .awaitable _ => .resolve v | v => .adopt v)
    let cell ← newCell
    makeInLoop fun l => l.newTask (match wrapper with | .coroutine i => i | _ => 0) cell

/-- The ticket whose awaitable is being settled. -/
def settlingTicket (r : Runner) : Nat :=
  match r.stack with
  | ⟨_, _, .settling t⟩ :: _ => t
  | _ => 0

/-- Settles a step's awaitable: inside a loop it is watched, else it is brought to its end now. Gives the error
that it ended with, if any, and what has to be done next. -/
def settle (awaitable : Value) : Work (Option Value × Directive) := do
  if ← inspect (·.loop.running) then
    let future ← futureOf awaitable
    let ticket ← query fun s => settlingTicket s.runner
    let cell ← newCell
    modifyLoop fun l => l.watch future ⟨.settled ticket future, cell⟩
    return (none, ← react (.watching future))
  else
    let co ← newCoroutine (.resolve awaitable)
    let i := match co with | .coroutine i => i | _ => 0
    let result ← attempt (serve (.conclude i))
    return (failure? result, ← answer result)

/-- The step at an index of a list of steps, if there are so many. -/
def seek (steps : Value) (index : Nat) : Work (Option Nat) := do
  if (← size steps) ≤ index then return none
  match ← itemOf steps (.int index) with
  | .step i => return some i
  | v => failLacking v "takes_next"

/-- Does what the runner asks for, until the move that came from outside has ended. What it asks for after a step
has failed is done while the error is being handled. -/
def follow : Nat → Option Value → Directive → Work Unit
  | 0, _, _ => exhausted
  | fuel + 1, handled, directive => do
    match directive with
    | .leave => return ()
    | .fail e => reraise e
    | .seek steps index =>
      match ← attempt (seek steps index) with
      | .ok found => follow fuel none (← react (.found found))
      | .error e => follow fuel none (← answer (.error e))
    | .invoke step args context =>
      let keywords : Table Value := (context.map fun v => ("processor", v)).toList
      let result ← attempt (serve (.call step.callee args keywords))
      follow fuel (failure? result) (← answer result)
    | .call done args =>
      let result ← attempt (handlingAny handled (serve (.call done args [])))
      follow fuel none (← answer result)
    | .await v =>
      let (handled, directive) ← settle v
      follow fuel handled directive

/-- Runs the steps of a ware over inputs. The last argument is the completion callback if it can
be called; else an error is raised to whoever is there to receive it. -/
def runWare (ware : Nat) (args : List Value) : Work Unit := do
  let (inputs, done) ← match args.getLast? with
    | some last => do pure (if ← isCallable last then (args.dropLast, last) else (args, Value.hook .bail))
    | none => pure (args, Value.hook .bail)
  follow rounds none (← react (.start ware inputs done))

/-- Calls a continuation with an error or none. -/
def callNext (ticket : Nat) (error : Value) : Work Unit := do
  follow rounds none (← react (.next ticket (if error = .null then none else some error)))

/-- Tells the handler of errors that nobody is left to receive; only the loop of a script has one. -/
def reportUnhandled (text : Datum) (error : Value) : Work Unit := do
  if ← inspect (·.inLoop) then
    record (.obj [("unhandled", text), ("error", ← seeFault error)])

/-- Tells a run that the future of a step has ended. -/
def tellSettled (ticket future : Nat) : Work Unit := do
  let name := (← query (·.runner.stepOf ticket)).name
  let error ← match (← inspect (·.loop.future future)).ending with
    | some (.error e) => pure (some e)
    | some (.value v) => pure (if v.isFault then some v else none)
    | _ => do
      let text := "step " ++ (← formatted name) ++ " was cancelled"
      let e ← make fun s => s.addFault (.plain .cancelled) [.str text] .null
      pure (some e)
  let directive ← react (.settled ticket future error)
  match ← attempt (follow rounds none directive) with
  | .ok _ => return ()
  | .error e =>
    if ← isOrdinary e then
      let name ← formatted name
      reportUnhandled
        (.str ("Unhandled error after step " ++ name ++ "; pass a done callback to run() to handle it")) e
    else reraise e

/-- Does what a settle callback is for: the ware stops waiting for the future, and its run is told. -/
def notifySettled (ticket future : Nat) : Work Unit := do
  modifyStore fun s => { s with runner := s.runner.discard ticket future }
  tellSettled ticket future

end Treeworks.Work
