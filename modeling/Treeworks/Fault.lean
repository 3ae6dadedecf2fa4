import Treeworks.Value
import Treeworks.Table

/-! Errors as objects: failures of the engine and of its collaborators with category and context,
diagnostics reported against a file, and failures of the language that scripts are run in. -/
namespace Treeworks

/-- The classes of errors that carry a category and a context. -/
inductive EngineKind
  | general | parse | transform | compile | config | expectedNode
  deriving DecidableEq, Repr, Inhabited

namespace EngineKind

/-- The name of the class. -/
def name : EngineKind → String
  | .general => "UnifiedError"
  | .parse => "ParseError"
  | .transform => "TransformError"
  | .compile => "CompileError"
  | .config => "ProcessorConfigError"
  | .expectedNode => "ExpectedNodeError"

/-- The category of an error that is given none. -/
def category : EngineKind → Category
  | .general => .internal
  | .parse => .parse
  | .transform => .transform
  | .compile => .compile
  | .config => .config
  | .expectedNode => .pipeline

end EngineKind

/-- The classes of all other errors but diagnostics. -/
inductive PlainKind
  | value | runtime | type | halt | key | index | attribute | frozen | cancelled | recursion
  | invalidState | validation | settings | encoding | system | overflow
  deriving DecidableEq, Repr, Inhabited

namespace PlainKind

/-- The name of the class. -/
def name : PlainKind → String
  | .value => "ValueError"
  | .runtime => "RuntimeError"
  | .type => "TypeError"
  | .halt => "Halt"
  | .key => "KeyError"
  | .index => "IndexError"
  | .attribute => "AttributeError"
  | .frozen => "FrozenInstanceError"
  | .cancelled => "CancelledError"
  | .recursion => "RecursionError"
  | .invalidState => "InvalidStateError"
  | .validation => "ValidationError"
  | .settings => "SettingsError"
  | .encoding => "UnicodeEncodeError"
  | .system => "OSError"
  | .overflow => "OverflowError"

/-- Whether handlers of ordinary errors see it; a halt and a cancellation pass them by. -/
def isOrdinary : PlainKind → Bool
  | .halt | .cancelled => false
  | _ => true

end PlainKind

/-- The parts of an error that carries a category and a context. -/
structure EngineFault where
  kind : EngineKind
  message : Value
  category : Value
  context : Value
  cause : Value
  option : Value
  node : Value
  deriving DecidableEq, Inhabited

/-- A diagnostic: a reason, the rendered position and its start, the path of the file, and whether
it was reported as fatal. -/
structure Diagnostic where
  reason : Value
  name : Value
  line : Value
  column : Value
  file : Value
  fatal : Value
  cause : Value
  deriving DecidableEq, Inhabited

/-- What an error is. -/
inductive FaultDetail
  | plain (kind : PlainKind)
  | engine (fault : EngineFault)
  | diagnostic (diagnostic : Diagnostic)
  deriving DecidableEq, Inhabited

namespace EngineFault

/-- The attributes of an engine error. -/
def attrs (e : EngineFault) : Table Value :=
  [("message", e.message), ("category", e.category), ("context", e.context), ("cause", e.cause)] ++
    (if e.kind = .config then [("option", e.option)] else []) ++
    (if e.kind = .expectedNode then [("node", e.node)] else [])

/-- Stores one of the parts of an engine error; none if it has no such part. -/
def setPart? (e : EngineFault) (name : String) (value : Value) : Option EngineFault :=
  if name = "message" then some { e with message := value }
  else if name = "category" then some { e with category := value }
  else if name = "context" then some { e with context := value }
  else if name = "cause" then some { e with cause := value }
  else if name = "option" && e.kind = .config then some { e with option := value }
  else if name = "node" && e.kind = .expectedNode then some { e with node := value }
  else none

end EngineFault

namespace Diagnostic

/-- The attributes of a diagnostic. -/
def attrs (d : Diagnostic) : Table Value :=
  [("reason", d.reason), ("name", d.name), ("line", d.line), ("column", d.column), ("file", d.file),
    ("fatal", d.fatal), ("cause", d.cause)]

/-- Stores one of the parts of a diagnostic; none if it has no such part. -/
def setPart? (d : Diagnostic) (name : String) (value : Value) : Option Diagnostic :=
  if name = "reason" then some { d with reason := value }
  else if name = "name" then some { d with name := value }
  else if name = "line" then some { d with line := value }
  else if name = "column" then some { d with column := value }
  else if name = "file" then some { d with file := value }
  else if name = "fatal" then some { d with fatal := value }
  else if name = "cause" then some { d with cause := value }
  else none

end Diagnostic

namespace FaultDetail

/-- The attributes that an error is born with. -/
def attrs : FaultDetail → Table Value
  | .plain .. => []
  | .engine e => e.attrs
  | .diagnostic d => d.attrs

/-- Stores one of the parts of an error; none if it has no such part. -/
def setPart? (d : FaultDetail) (name : String) (value : Value) : Option FaultDetail :=
  match d with
  | .plain .. => none
  | .engine e => (e.setPart? name value).map .engine
  | .diagnostic d => (d.setPart? name value).map .diagnostic

end FaultDetail

/-- An error object: what it is, the tuple of what it was constructed with, which makes its text, the
error that it was raised from, the error that was being handled when it was raised, whether that one is
kept quiet about, whether it was ever raised, and further attributes that were stored on it. -/
structure Fault where
  detail : FaultDetail
  args : Value
  chained : Value
  context : Value
  quieted : Bool
  raised : Bool
  attrs : Table Value
  deriving DecidableEq, Inhabited

namespace Fault

/-- The name of an error's class. -/
def kindName (f : Fault) : String :=
  match f.detail with
  | .plain kind => kind.name
  | .engine e => e.kind.name
  | .diagnostic _ => "VFileMessage"

/-- Whether handlers of ordinary errors see it. -/
def isOrdinary (f : Fault) : Bool :=
  match f.detail with
  | .plain kind => kind.isOrdinary
  | _ => true

/-- An error as it is constructed. Whatever it is raised from keeps quiet about the error that was being
handled. -/
def new (detail : FaultDetail) (args cause : Value) : Fault :=
  ⟨detail, args, cause, .null, cause ≠ .null, false, []⟩

/-- The category that engine errors of a class have unless they are given another. -/
def standardCategory (f : Fault) : Table Value :=
  match f.detail with
  | .engine e => [("default_category", .category e.kind.category)]
  | _ => []

/-- The attributes that an error has besides those that were stored on it. -/
def bornAttrs (f : Fault) (self : Nat) : Table Value :=
  f.detail.attrs ++ [("args", f.args), ("__cause__", f.chained), ("__context__", f.context),
    ("__suppress_context__", .bool f.quieted),
    ("__traceback__", if f.raised then .trace self else .null)] ++ f.standardCategory

end Fault
end Treeworks
