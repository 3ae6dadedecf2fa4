import Treeworks.Coroutines

/-! Running the event loop: handles, turns, and loops that are run for one coroutine alone. -/
namespace Treeworks.Work

/-- Runs work in the cell of a logging context. -/
def inCell {α : Type} (cell : Nat) (w : Work α) : Work (Except Value α) := do
  let outer ← inspect (·.cell)
  modify fun m => { m with cell := cell }
  let result ← attempt w
  modify fun m => { m with cell := outer }
  return result

/-- The error that a task's coroutine goes on with: a cancellation that is due takes its place,
unless it is one. -/
def dueError (due : Bool) (error : Option Value) : Work (Option Value) := do
  if !due then return error
  else
    match error with
    | some e => if ← isCancellation e then return some e else return some (← cancellation)
    | none => return some (← cancellation)

/-- Runs the next part of a task. -/
def advanceTask (t : Nat) (error : Option Value) : Work Unit := do
  if ← inspect (·.loop.isDone t) then return ()
  match (← inspect (·.loop.future t)).task with
  | none => return ()
  | some task =>
    let error ← dueError task.cancelDue error
    modifyLoop fun l => l.updateTask t fun task => { task with waiting := none, cancelDue := false }
    match ← attempt (serve (.resume task.coroutine error)) with
    | .error e =>
      if ← isCancellation e then modifyLoop fun l => l.settle t .cancelled
      else modifyLoop fun l => l.settle t (.error e)
    | .ok (.ended v) =>
      let due := ((← inspect (·.loop.future t)).task.map (·.cancelDue)).getD false
      modifyLoop fun l => l.settle t (if due then .cancelled else .value v)
    | .ok .turn => modifyLoop fun l => l.schedule ⟨.advance t none, task.cell⟩
    | .ok (.waits f) =>
      modifyLoop fun l =>
        (l.watch f ⟨.wake t f, task.cell⟩).updateTask t fun task => { task with waiting := some f }
      if ((← inspect (·.loop.future t)).task.map (·.cancelDue)).getD false then
        let cancelled ← makeInLoop fun l => l.cancel f
        if cancelled then
          modifyLoop fun l => l.updateTask t fun task => { task with cancelDue := false }

/-- Runs a task on after the future that it waited for has ended. -/
def wakeTask (t f : Nat) : Work Unit := do
  match ← futureResult (← inspect (·.loop.future f)) with
  | .ok _ => advanceTask t none
  | .error e => advanceTask t (some e)

/-- Does what a handle is for. -/
def runCallback : Callback → Work Unit
  | .advance t error => advanceTask t error
  | .wake t f => wakeTask t f
  | .settled ticket f => notifySettled ticket f
  | .told task name report => recordEnd task name report
  | .stop => modifyLoop fun l => { l with stopping := true }
  | .collected => modifyLoop fun l =>
    let l := { l with collecting := l.collecting - 1 }
    if l.collecting = 0 then l.schedule ⟨.stop, 0⟩ else l

/-- Runs a handle in its cell; an error that comes out of it has nobody to go to. -/
def runHandle (h : Handle) : Work Unit := do
  match ← inCell h.cell (runCallback h.callback) with
  | .ok _ => return ()
  | .error e => reportUnhandled .null e

/-- Runs the first handles of the queue. -/
def runReady : Nat → Work Unit
  | 0 => pure ()
  | n + 1 => do
    match ← inspect (·.loop.ready) with
    | [] => return ()
    | h :: rest =>
      modifyLoop fun l => { l with ready := rest }
      runHandle h
      runReady n

/-- A turn of the loop: the handles that are ready when it begins. -/
def turn : Work Unit := do
  runReady (← inspect (·.loop.ready.length))

/-- Takes turns until nothing is ready. -/
def drain : Nat → Work Unit
  | 0 => exhausted
  | fuel + 1 => do
    if ← inspect (·.loop.ready.isEmpty) then return ()
    else
      turn
      drain fuel

/-- Takes turns until the loop is told to stop. A loop that has nothing to do before never ends. -/
def runUntilStopped : Nat → Work Unit
  | 0 => exhausted
  | fuel + 1 => do
    turn
    if ← inspect (·.loop.stopping) then modifyLoop fun l => { l with stopping := false }
    else if ← inspect (·.loop.ready.isEmpty) then exhausted
    else runUntilStopped fuel

/-- Closes a loop: its open tasks are cancelled and waited for, errors that they end with are
reported, and what is ready gets four more turns; the rest is dropped. -/
def closeLoop (first : Nat) : Work Unit := do
  let tasks := (← inspect (·.loop.openTasks)).filter (first ≤ ·)
  if !tasks.isEmpty then
    let _ ← each (fun t => makeInLoop fun l => l.cancel t) tasks
    let _ ← each (fun t => modifyLoop fun l => l.watch t ⟨.collected, 0⟩) tasks
    modifyLoop fun l => { l with collecting := tasks.length }
    runUntilStopped rounds
    let _ ← each (fun t => do
      match (← inspect (·.loop.future t)).ending with
      | some (.error e) => reportUnhandled .null e
      | _ => pure ()) tasks
  turn
  turn
  turn
  turn
  modifyLoop fun l => { l with ready := [], running := false, stopping := false }

/-- Runs a loop until a coroutine has ended, and closes it. -/
def conclude (coroutine : Nat) : Work Value := do
  let first ← inspect (·.loop.futures.size)
  modifyLoop fun l => { l with ready := [], running := true, stopping := false }
  let cell ← newCell
  let t ← makeInLoop fun l => l.newTask coroutine cell
  modifyLoop fun l => l.watch t ⟨.stop, cell⟩
  runUntilStopped rounds
  closeLoop first
  release (← futureResult (← inspect (·.loop.future t)))

end Treeworks.Work
