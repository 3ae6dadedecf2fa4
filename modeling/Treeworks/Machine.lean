import Treeworks.Loop
import Treeworks.Lineage
import Treeworks.Method
import Treeworks.Log.Configuration

/-! The machine that scripts run on, and work on it: a computation that ends with a result, with a
raised error, or without an end because its budget is spent. Every ending keeps the machine. -/
namespace Treeworks

/-- A timed and logged block that is open: its event, the level of its last entry, its span, the
token that brings back the outer context, and the chain that its logger keeps. -/
structure OpenStep where
  event : Value
  level : Value
  span : Nat
  token : Nat
  chain : Option Chain
  deriving Inhabited

/-- What a body gives when none of its actions does: nothing, or what a worker makes by the part that
one of its classes has in it. -/
inductive Otherwise
  | null
  | produce (worker : Value) (type : Nat)
  deriving DecidableEq, Inhabited

/-- Where a coroutine stands: what it does when it goes on. One that draws from a collection, or from an iterator, waits
for no more than a turn before each further value; nothing but null can be drawn. -/
inductive Stage
  | acts (locals : Table Value) (rest : List Act) (otherwise : Otherwise)
  | sleep (turns : Nat) (locals : Table Value) (rest : List Act) (otherwise : Otherwise)
  | call (name : String) (quiet : Bool) (locals : Table Value) (body : List Act)
  | work (worker : Value) (type : Nat)
  | parse (processor value settings : Value)
  | parsed (processor : Value) (file : Nat) (step : OpenStep)
  | process (processor value settings : Value)
  | processed (passage : Nat) (step : OpenStep)
  | parsePassage (passage : Nat)
  | parsedPassage (passage : Nat)
  | settlePassage (passage : Nat) (awaitable : Value)
  | settledPassage (passage : Nat)
  | resolve (awaitable : Value)
  | adopt (awaitable : Value)
  | resolved
  | draw (source : Value) (index : Nat) (next : Stage)
  | drawn (next : Stage)
  deriving Inhabited

/-- Whether a coroutine has begun, is running now, or has ended. -/
inductive Progress
  | fresh | suspended | running | ended
  deriving DecidableEq, Inhabited

/-- A coroutine: where it stands, and what it waits for. -/
structure Coroutine where
  stage : Stage
  progress : Progress
  inner : Option Value
  deriving Inhabited

/-- Everything that a script can change. `cells` hold the current logging contexts, one for each
line of control; `cell` is the current one. `inLoop` tells whether operations run inside a loop,
where errors that nobody receives are recorded. `handling` holds the errors that are being handled, the innermost
first. -/
structure Machine where
  store : Store
  loop : Loop
  coroutines : Array Coroutine
  cells : Array Scope
  cell : Nat
  stamps : Nat
  logging : Logging
  settings : Option Settings
  vars : Table String
  environment : Table Value
  manual : Table Nat
  inLoop : Bool
  handling : List Value
  events : List Datum
  logs : List Datum
  lines : List Datum
  spanIds : Nat
  spanNames : List Nat
  measured : List Value
  deriving Inhabited

/-- How a piece of work ends. -/
inductive Outcome (α : Type)
  | done (value : α)
  | raised (error : Value)
  | spent
  deriving Inhabited

/-- A request for work that goes through code of the script, which may come back with requests. -/
inductive Request
  | call (callee : Value) (args : List Value) (keywords : Table Value)
  | invoke (method : Method) (args : List Value)
  | resume (coroutine : Nat) (error : Option Value)
  | attach (ware : Nat) (attacher : Value) (options : List Value)
  | conclude (coroutine : Nat)

/-- Why a coroutine stops going on: it has ended, it waits for a future, or it gives way for a turn. -/
inductive Pause
  | ended (value : Value)
  | waits (future : Nat)
  | turn
  deriving DecidableEq, Inhabited

/-- What a request is answered with. -/
def Request.Reply : Request → Type
  | .call .. => Value
  | .invoke .. => Value
  | .resume .. => Pause
  | .attach .. => Unit
  | .conclude .. => Value

/-- A way to have requests done. -/
abbrev Service := (r : Request) → Machine → Outcome r.Reply × Machine

/-- Work on the machine, which can ask a service for what goes through code of the script. -/
def Work (α : Type) : Type := Service → Machine → Outcome α × Machine

namespace Work
variable {α β : Type}

/-- Ends with a result. -/
protected def pure (a : α) : Work α := fun _ m => (.done a, m)

/-- Goes on with the result of the first work, if it has one. -/
protected def bind (w : Work α) (f : α → Work β) : Work β := fun service m =>
  match w service m with
  | (.done a, m) => f a service m
  | (.raised e, m) => (.raised e, m)
  | (.spent, m) => (.spent, m)

instance : Monad Work where
  pure := Work.pure
  bind := Work.bind

instance : Inhabited (Work α) := ⟨fun _ m => (.spent, m)⟩

/-- Has a request done. -/
def serve (r : Request) : Work r.Reply := fun service m => service r m

/-- The machine as it is. -/
def machine : Work Machine := fun _ m => (.done m, m)

/-- The store as it is. -/
def store : Work Store := fun _ m => (.done m.store, m)

/-- What the machine says to a question. Nothing but the answer is kept, so the machine can be changed in place
afterwards. -/
def inspect (f : Machine → α) : Work α := fun _ m => (.done (f m), m)

/-- What the store says to a question. -/
def query (f : Store → α) : Work α := inspect fun m => f m.store

/-- Changes the machine. -/
def modify (f : Machine → Machine) : Work Unit := fun _ m => (.done (), f m)

/-- Changes the store. -/
def modifyStore (f : Store → Store) : Work Unit := modify fun m => { m with store := f m.store }

/-- Changes the loop. -/
def modifyLoop (f : Loop → Loop) : Work Unit := modify fun m => { m with loop := f m.loop }

/-- Runs an operation on the store that makes something. -/
def make (f : Store → α × Store) : Work α := fun _ m =>
  let (a, s) := f m.store
  (.done a, { m with store := s })

/-- Runs an operation on the loop that makes something. -/
def makeInLoop (f : Loop → α × Loop) : Work α := fun _ m =>
  let (a, l) := f m.loop
  (.done a, { m with loop := l })

/-- Lets an error that was raised go on. -/
def reraise (error : Value) : Work α := fun _ m => (.raised error, m)

/-- Raises an error object: from now on it has been raised while the innermost error that is being handled was
handled. -/
def raise (error : Value) : Work α := do
  modify fun m => { m with store := m.store.noteRaised error (m.handling.headD .null) }
  reraise error

/-- Ends without an end. -/
def exhausted : Work α := fun _ m => (.spent, m)

/-- Raises the error of a failure. -/
def fail (failure : Failure) : Work α := do
  let e ← make fun s => s.addFault (.plain failure.kind) [.str failure.message] .null
  raise e

/-- Raises an error of the engine's own with a message. -/
def raiseEngine (kind : EngineKind) (message : String) (context option : Value) : Work α := do
  raise (← make fun s => s.addFault
    (.engine ⟨kind, .str message, .category kind.category, context, .null, option, .null⟩) [.str message] .null)

/-- Raises the error of an attribute that a value does not have. -/
def failLacking (v : Value) (name : String) : Work α := do fail (← query (·.lacking v name))

/-- Whether a value can be called. -/
def isCallable (v : Value) : Work Bool := do query (·.isCallable v)

/-- Raises the error of a failure that has to do with the class of a value. -/
def failFor (v : Value) (failure : String → Failure) : Work α := do fail (failure (← query (·.typeName v)))

/-- Reads something off the store that may fail. -/
def look (f : Store → Except Failure α) : Work α := fun service m =>
  match f m.store with
  | .ok a => (.done a, m)
  | .error failure => fail failure service m

/-- Runs an operation on the store that may fail. -/
def perhaps (f : Store → Except Failure (α × Store)) : Work α := fun service m =>
  match f m.store with
  | .ok (a, s) => (.done a, { m with store := s })
  | .error failure => fail failure service m

/-- Catches a raised error. -/
def attempt (w : Work α) : Work (Except Value α) := fun service m =>
  match w service m with
  | (.done a, m) => (.done (.ok a), m)
  | (.raised e, m) => (.done (.error e), m)
  | (.spent, m) => (.spent, m)

/-- Whether handlers of ordinary errors see an error. -/
def isOrdinary (error : Value) : Work Bool := do
  let s ← store
  match error with
  | .fault i => return (s.fault i).isOrdinary
  | _ => return true

/-- Raises a value, which has to be an error. -/
def raiseValue (v : Value) : Work α :=
  if v.isFault then raise v else fail .notRaisable

/-- Gives the result of an attempt again. -/
def release : Except Value α → Work α
  | .ok a => pure a
  | .error e => reraise e

/-- Does work while an error is being handled. -/
def handling (error : Value) (w : Work α) : Work α := do
  modify fun m => { m with handling := error :: m.handling }
  let result ← attempt w
  modify fun m => { m with handling := m.handling.tail }
  release result

/-- Records an event. -/
def record (event : Datum) : Work Unit := modify fun m => { m with events := event :: m.events }

/-- A new list value. -/
def newList (items : List Value) : Work Value := make fun s => s.addList items

/-- A new dictionary value. -/
def newDict (entries : Table Value) : Work Value := make fun s => s.addDict (.ofTable entries)

/-- A tuple value. -/
def newTuple (items : List Value) : Work Value := make fun s => s.addTuple items

/-- A coroutine that stands at its beginning. -/
def newCoroutine (stage : Stage) : Work Value := fun _ m =>
  (.done (.coroutine m.coroutines.size),
    { m with coroutines := m.coroutines.push ⟨stage, .fresh, none⟩ })

/-- A new function. -/
def newFunction (function : Function) : Work Value := make fun s => s.addFunction function

/-- Applies work to values from left to right. -/
def each (f : α → Work β) : List α → Work (List β)
  | [] => pure []
  | a :: rest => do
    let b ← f a
    let bs ← each f rest
    return b :: bs

/-- Applies work to the values of a table from left to right. -/
def eachValue (f : Value → Work β) (t : Table Value) : Work (List (String × β)) :=
  each (fun e => do return (e.1, ← f e.2)) t

end Work

namespace Machine

/-- The coroutine at a place. -/
def coroutine (m : Machine) (i : Nat) : Coroutine := m.coroutines.getD i default

/-- The current logging context. -/
def scope (m : Machine) : Scope := m.cells.getD m.cell ⟨0, .empty⟩

end Machine

/-- The number of rounds that a loop may take before it counts as endless. -/
def rounds : Nat := 10000000

end Treeworks
