import Treeworks.Store

/-! The event loop: futures with their watchers, tasks that run coroutines, and a queue of handles
that are run first come, first served. A handle remembers the cell of the logging context that it
runs in. -/
namespace Treeworks

/-- How a future ended. -/
inductive Ending
  | value (v : Value)
  | error (e : Value)
  | cancelled
  deriving DecidableEq, Inhabited

/-- How the end of a named task is told: by the tree or by the passage that it ends with, which may
be registered under an id. -/
inductive Report
  | tree (id : Option String)
  | passage (fileId : Option String)
  deriving DecidableEq, Inhabited

/-- What a handle does when it is run. -/
inductive Callback
  | advance (task : Nat) (error : Option Value)
  | wake (task future : Nat)
  | settled (ticket future : Nat)
  | told (task : Nat) (name : Option String) (report : Report)
  | stop
  | collected
  deriving DecidableEq, Inhabited

/-- A callback with the cell of the logging context that it runs in. -/
structure Handle where
  callback : Callback
  cell : Nat
  deriving DecidableEq, Inhabited

/-- A coroutine being run, the future it waits for, and whether a cancellation is due. -/
structure Task where
  coroutine : Nat
  cell : Nat
  waiting : Option Nat
  cancelDue : Bool
  deriving DecidableEq, Inhabited

/-- A future; its watchers are queued in order when it ends. -/
structure Future where
  ending : Option Ending
  watchers : List Handle
  task : Option Task
  deriving DecidableEq, Inhabited

/-- The futures, the queue, whether a loop is running, whether it stops after this turn, and how
many collected futures are still open. -/
structure Loop where
  futures : Array Future
  ready : List Handle
  running : Bool
  stopping : Bool
  collecting : Nat
  deriving DecidableEq, Inhabited

namespace Loop

/-- The loop in which nothing has happened. -/
def empty : Loop := ⟨#[], [], false, false, 0⟩

/-- The future at a place. -/
def future (l : Loop) (i : Nat) : Future := l.futures.getD i default

/-- Whether a future has ended. -/
def isDone (l : Loop) (i : Nat) : Bool := (l.future i).ending.isSome

/-- Changes a future. -/
def update (l : Loop) (i : Nat) (f : Future → Future) : Loop :=
  { l with futures := l.futures.modify i f }

theorem future_update (l : Loop) (i j : Nat) (f : Future → Future) :
    (l.update i f).future j = if i = j ∧ j < l.futures.size then f (l.future j) else l.future j := by
  simp only [future, update, Array.getD_eq_getD_getElem?, Array.getElem?_modify]
  by_cases hj : j < l.futures.size
  · by_cases hi : i = j <;> simp [hi, hj]
  · simp [hj]

/-- Puts a handle at the end of the queue. -/
def schedule (l : Loop) (h : Handle) : Loop := { l with ready := l.ready ++ [h] }

/-- A future that someone will settle. -/
def newFuture (l : Loop) : Nat × Loop :=
  (l.futures.size, { l with futures := l.futures.push ⟨none, [], none⟩ })

/-- A task for a coroutine; its first part is queued. -/
def newTask (l : Loop) (coroutine cell : Nat) : Nat × Loop :=
  let i := l.futures.size
  (i, { l with futures := l.futures.push ⟨none, [], some ⟨coroutine, cell, none, false⟩⟩ }.schedule
    ⟨.advance i none, cell⟩)

/-- Changes the task of a future. -/
def updateTask (l : Loop) (i : Nat) (f : Task → Task) : Loop :=
  l.update i fun future => { future with task := future.task.map f }

/-- Queues a handle when the future ends, or now if it has ended. -/
def watch (l : Loop) (i : Nat) (h : Handle) : Loop :=
  if l.isDone i then l.schedule h
  else l.update i fun future => { future with watchers := future.watchers ++ [h] }

/-- Ends a future that is open and queues its watchers. -/
def settle (l : Loop) (i : Nat) (ending : Ending) : Loop :=
  if l.isDone i then l
  else
    let watchers := (l.future i).watchers
    let l := l.update i fun future => { future with ending := some ending, watchers := [] }
    { l with ready := l.ready ++ watchers }

/-- Asks a future to end as cancelled: a plain one ends at once; a task passes the request on to
what it waits for, or takes it at its next part. Tells whether it was open. -/
def cancel (l : Loop) (i : Nat) : Bool × Loop :=
  if l.isDone i then (false, l)
  else
    match (l.future i).task with
    | none => (true, l.settle i .cancelled)
    | some task =>
      match task.waiting with
      | some j =>
        if !l.isDone j && (l.future j).task.isNone then (true, l.settle j .cancelled)
        else (true, l.updateTask i fun t => { t with cancelDue := true })
      | none => (true, l.updateTask i fun t => { t with cancelDue := true })

/-- The tasks that have not ended, oldest first. -/
def openTasks (l : Loop) : List Nat :=
  (List.range l.futures.size).filter fun i => (l.future i).task.isSome && !l.isDone i

end Loop
end Treeworks
