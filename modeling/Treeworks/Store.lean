import Treeworks.Runner
import Treeworks.Fault
import Treeworks.Slots
import Treeworks.Log.Context
import Treeworks.Script.Syntax

/-! The store of objects, one table per kind. -/
namespace Treeworks

/-- A place in a text: line and column as they were given. -/
structure Point where
  line : Value
  column : Value
  deriving DecidableEq, Inhabited

/-- A carrier file: text, path parts, the list of its diagnostics, and the mapping that holds one bag
per namespace. -/
structure Carrier where
  contents : Value
  filename : Value
  directory : Value
  extension : Value
  quiet : Value
  messages : Value
  bags : Value
  attrs : Table Value
  deriving DecidableEq, Inhabited

/-- What a call by name calls: a value, with the arguments that go before the others; a method that a
class is born with, for an object or for a class; a method of a ware or of a file; or the one that gives the
mapping of an error's context. -/
inductive Method
  | value (callee : Value) (leading : List Value)
  | inborn (type : Nat) (name : String) (receiver : Value)
  | ware (ware : Nat) (name : String)
  | file (file : Nat) (name : String)
  | mapping (context : Nat)
  deriving Inhabited

/-- A function written in a script, another function with a tuple of leading arguments fixed and a dictionary of
others, a completion callback, or a method of an object as a value. -/
inductive Function
  | script (name : String) (signature : Signature) (kind : FunctionKind) (asynchronous quiet : Bool)
      (body : List Act)
  | fixed (target leading keywords : Value)
  | callback (name : String) (body : List Act)
  | bound (label : String) (method : Method)
  deriving Inhabited

/-- What a class is born with: nothing, how to parse or compile as a script says, or how to run as a
processor. -/
inductive Role
  | plain
  | worker (parses : Bool) (spec : WorkerSpec)
  | family
  deriving Inhabited

/-- A class: the classes it was made from, its linearised ancestry, itself first, and its own
attributes. Its instances have a dictionary and a place for weak references if these stand among the extras; the
layout is the class along the ancestry that was last to add a slot. The methods that are fixed need no instance. -/
structure TypeDef where
  name : String
  qualname : String
  module : Value
  doc : Value
  bases : List Nat
  ancestry : List Nat
  attrs : Table Value
  role : Role
  extras : List String
  layout : Option Nat
  fixed : List String
  deriving Inhabited

/-- An instance of a class: of a processor family, or of any other. It has a dictionary of its attributes, and
values in the slots that its classes name. -/
structure Instance where
  type : Nat
  fields : Nat
  slots : Entries
  deriving Inhabited

/-- One passage of a value through parsing, running and compiling. -/
structure Passage where
  processor : Value
  settings : Value
  file : Value
  tree : Value
  result : Value
  deriving Inhabited

/-- A timed span, with its times in seconds; one that has not ended has none for its end. `metrics` is the mapping
that is reported with it. -/
structure Span where
  step : Value
  id : Value
  parent : Value
  startedAt : Value
  endedAt : Value
  metrics : Value
  error : Value
  attrs : Table Value
  deriving Inhabited

/-- A logging context together with its identity. -/
structure Scope where
  stamp : Nat
  fields : LogContext
  deriving DecidableEq, Inhabited

/-- The right to bring back an earlier logging context, once, in the cell where it was replaced. -/
structure Token where
  cell : Nat
  previous : Scope
  used : Bool
  deriving Inhabited

/-- All objects. The first tuple is the empty one. A context and a record are named by the dictionary of their
attributes. What was stored on a function stands beside it. -/
structure Store where
  lists : Array (Array Value)
  dicts : Array Entries
  tuples : Array (List Value)
  sets : Array Elements
  records : Array Nat
  views : Array Entries
  points : Array Point
  faults : Array Fault
  contexts : Array Nat
  files : Array Carrier
  functions : Array Function
  functionAttrs : Array (Table Value)
  types : Array TypeDef
  workers : Array Instance
  processors : Array Instance
  passages : Array Passage
  spans : Array Span
  tokens : Array Token
  runner : Runner
  deriving Inhabited

namespace Store

/-- The items of a list. -/
def list (s : Store) (i : Nat) : List Value := (s.lists.getD i #[]).toList

/-- The entries of a dictionary. -/
def dict (s : Store) (i : Nat) : Entries := s.dicts.getD i []

/-- The items of a tuple. -/
def tuple (s : Store) (i : Nat) : List Value := s.tuples.getD i []

/-- A set. -/
def set (s : Store) (i : Nat) : Elements := s.sets.getD i .empty

/-- The dictionary of the attributes of a record. -/
def recordDict (s : Store) (i : Nat) : Nat := s.records.getD i 0

/-- The attributes of a record. -/
def record (s : Store) (i : Nat) : Entries := s.dict (s.recordDict i)

/-- The entries of a read-only view. -/
def view (s : Store) (i : Nat) : Entries := s.views.getD i []

/-- The point at a place. -/
def point (s : Store) (i : Nat) : Point := s.points.getD i default

/-- The carrier file at a place. -/
def file (s : Store) (i : Nat) : Carrier := s.files.getD i default

/-- The error at a place. -/
def fault (s : Store) (i : Nat) : Fault := s.faults.getD i default

/-- The function at a place. -/
def function (s : Store) (i : Nat) : Function := s.functions.getD i default

/-- What was stored on the function at a place. -/
def functionAttr? (s : Store) (i : Nat) (name : String) : Option Value :=
  (s.functionAttrs.getD i []).get? name

/-- The class at a place. -/
def type (s : Store) (i : Nat) : TypeDef := s.types.getD i default

/-- The processor at a place. -/
def processor (s : Store) (i : Nat) : Instance := s.processors.getD i default

/-- The worker at a place. -/
def worker (s : Store) (i : Nat) : Instance := s.workers.getD i default

/-- The instance of a class that a value is. -/
def instance? (s : Store) : Value → Option Instance
  | .worker i => some (s.worker i)
  | .processor i => some (s.processor i)
  | _ => none

/-- The span at a place. -/
def span (s : Store) (i : Nat) : Span := s.spans.getD i default

/-- A new list. -/
def addList (s : Store) (items : List Value) : Value × Store :=
  (.list s.lists.size, { s with lists := s.lists.push items.toArray })

/-- A new dictionary. -/
def addDict (s : Store) (entries : Entries) : Value × Store :=
  (.dict s.dicts.size, { s with dicts := s.dicts.push entries })

/-- A tuple; there is one empty tuple. -/
def addTuple (s : Store) (items : List Value) : Value × Store :=
  if items.isEmpty then (.tuple 0, s)
  else (.tuple s.tuples.size, { s with tuples := s.tuples.push items })

/-- A new set. -/
def addSet (s : Store) (elements : Elements) : Value × Store :=
  (.set s.sets.size, { s with sets := s.sets.push elements })

/-- A new record. -/
def addRecord (s : Store) (attrs : Entries) : Value × Store :=
  (.record s.records.size,
    { s with dicts := s.dicts.push attrs, records := s.records.push s.dicts.size })

/-- A new view. -/
def addView (s : Store) (entries : Entries) : Value × Store :=
  (.view s.views.size, { s with views := s.views.push entries })

/-- A new point. -/
def addPoint (s : Store) (p : Point) : Value × Store :=
  (.point s.points.size, { s with points := s.points.push p })

/-- A new error, constructed with some values. -/
def addFault (s : Store) (detail : FaultDetail) (args : List Value) (cause : Value) : Value × Store :=
  let (args, s) := s.addTuple args
  (.fault s.faults.size, { s with faults := s.faults.push (.new detail args cause) })

/-- A new file. -/
def addFile (s : Store) (file : Carrier) : Value × Store :=
  (.file s.files.size, { s with files := s.files.push file })

/-- A new function. -/
def addFunction (s : Store) (function : Function) : Value × Store :=
  (.function s.functions.size,
    { s with functions := s.functions.push function, functionAttrs := s.functionAttrs.push [] })

/-- A new instance of a class that is no family, with a dictionary of its own. -/
def addWorker (s : Store) (type : Nat) : Value × Store :=
  (.worker s.workers.size,
    { s with dicts := s.dicts.push [], workers := s.workers.push ⟨type, s.dicts.size, []⟩ })

/-- A new instance of a family, with a dictionary of its own. -/
def addProcessor (s : Store) (type : Nat) : Value × Store :=
  (.processor s.processors.size,
    { s with dicts := s.dicts.push [], processors := s.processors.push ⟨type, s.dicts.size, []⟩ })

/-- A new span. -/
def addSpan (s : Store) (span : Span) : Value × Store :=
  (.span s.spans.size, { s with spans := s.spans.push span })

/-- A new ware. -/
def addWare (s : Store) (w : Ware) : Value × Store :=
  let (i, runner) := s.runner.addWare w
  (.ware i, { s with runner := runner })

/-- A new ware without steps. -/
def addEmptyWare (s : Store) (context : Value) (attachers : Option Value) : Value × Store :=
  let (steps, s) := s.addList []
  s.addWare (.new context steps attachers)

/-- A new step. -/
def addStep (s : Store) (step : Step) : Value × Store :=
  let (i, runner) := s.runner.addStep step
  (.step i, { s with runner := runner })

/-- Changes a dictionary. -/
def updateDict (s : Store) (i : Nat) (f : Entries → Entries) : Store :=
  { s with dicts := s.dicts.modify i f }

/-- Changes a list. -/
def updateList (s : Store) (i : Nat) (f : Array Value → Array Value) : Store :=
  { s with lists := s.lists.modify i f }

/-- Changes a file. -/
def updateFile (s : Store) (i : Nat) (f : Carrier → Carrier) : Store :=
  { s with files := s.files.modify i f }

/-- Changes an error. -/
def updateFault (s : Store) (i : Nat) (f : Fault → Fault) : Store :=
  { s with faults := s.faults.modify i f }

/-- Changes a class. -/
def updateType (s : Store) (i : Nat) (f : TypeDef → TypeDef) : Store :=
  { s with types := s.types.modify i f }

/-- Changes an instance of a class. -/
def updateInstance (s : Store) (v : Value) (f : Instance → Instance) : Store :=
  match v with
  | .worker i => { s with workers := s.workers.modify i f }
  | .processor i => { s with processors := s.processors.modify i f }
  | _ => s

/-- The entries of a mapping: a dictionary or a read-only view. -/
def mapping? (s : Store) : Value → Option Entries
  | .dict i => some (s.dict i)
  | .view i => some (s.view i)
  | _ => none

/-- The values that a collection gives when it is gone through, if it is one. -/
def elements? (s : Store) : Value → Option (List Value)
  | .list i => some (s.list i)
  | .tuple i => some (s.tuple i)
  | .set i => some (s.set i).toList
  | .dict i => some (s.dict i).keys
  | .view i => some (s.view i).keys
  | .str t => some ((Text.symbols t).map fun x => .str x.text)
  | _ => none

/-- The number of entries or items of a collection. -/
def length? (s : Store) : Value → Option Nat
  | .list i => some (s.lists.getD i #[]).size
  | v => (s.elements? v).map List.length

/-- Whether a value counts as true. -/
def truthy (s : Store) : Value → Bool
  | .null => false
  | .bool b => b
  | .int n => n ≠ 0
  | .float x => x != 0
  | v => (s.length? v).all (· ≠ 0)

/-- The name of a value's class. -/
def typeName (s : Store) : Value → String
  | .null => "NoneType"
  | .bool _ => "bool"
  | .int _ => "int"
  | .float _ => "float"
  | .str _ | .spanId _ => "str"
  | .category _ => "ErrorCategory"
  | .list _ => "list"
  | .dict _ => "dict"
  | .tuple _ => "tuple"
  | .set _ => "set"
  | .record _ => "SimpleNamespace"
  | .view _ => "mappingproxy"
  | .point _ => "Point"
  | .fault i => (s.fault i).kindName
  | .context _ => "ErrorContext"
  | .file _ => "VFile"
  | .function i =>
    match s.function i with
    | .script name _ .object _ _ _ | .script name _ .unreadable _ _ _ => name
    | .script .. | .callback .. => "function"
    | .fixed .. => "partial"
    | .bound .. => "method"
  | .hook _ => "function"
  | .next _ => "_Continuation"
  | .coroutine _ => "coroutine"
  | .awaitable _ => "Awaitable"
  | .future _ => "Future"
  | .type _ | .native _ => "type"
  | .worker i => (s.type (s.worker i).type).name
  | .processor i => (s.type (s.processor i).type).name
  | .ware i => if (s.runner.ware i).attachers.isSome then "AttachWare" else "Ware"
  | .step .. => "WareStep"
  | .passage _ => "PipelineContext"
  | .span _ => "TimingResult"
  | .token _ => "ContextToken"
  | .slot .. => "member_descriptor"
  | .trace _ => "traceback"

/-- The name that a function of the library or of a script goes by. -/
def functionName (s : Store) (v : Value) : String :=
  match v with
  | .function i =>
    match s.functionAttr? i "__qualname__", s.function i with
    | some (.str name), _ => name
    | _, .script name .. => name
    | _, .callback .. => "Script.done.<locals>.done"
    | _, .bound label _ => label
    | _, .fixed .. => s.typeName v
  | .hook .bail => "bail"
  | .hook .parseStage => "parse_step"
  | .hook .runStage => "run_step"
  | .hook .compileStage => "stringify_step"
  | .hook (.finish ..) => "process.<locals>.done"
  | v => s.typeName v

end Store
end Treeworks
