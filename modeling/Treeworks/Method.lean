import Treeworks.Attribute

/-! Methods: what a call by name calls. -/
namespace Treeworks

/-- The method by which a file reports a diagnostic. -/
def Reporting.name : Reporting → String
  | .message => "message"
  | .warn => "warn"
  | .fail => "fail"

namespace Store

/-- Whether a function that a class offers under a name is one that needs no instance. -/
def isFixed (s : Store) (type : Nat) (name : String) : Bool :=
  ((s.type type).ancestry.find? fun i => (s.type i).attrs.has name).any fun i => (s.type i).fixed.contains name

/-- What a value that a class offers to an instance takes before other arguments: a plain function takes the
instance, or the class if it needs no instance; the function that makes instances takes nothing. -/
def leading (s : Store) (v : Value) (type : Nat) (name : String) (offered : Value) : List Value :=
  if !s.isPlainFunction offered then []
  else if s.isFixed type name then if name = "__new__" then [] else [.type type]
  else [v]

/-- The method of an instance: its own attributes are called as they are, and a plain function that
its class offers takes the instance as its first argument. -/
def instanceMethod (s : Store) (v : Value) (x : Instance) (name : String) : Except Failure Method :=
  match s.member? x.type name, s.field? x name with
  | some (.value (.slot ..)), _ => do return .value (← s.attr v name) []
  | _, some f => .ok (.value f [])
  | some (.value f), none => .ok (.value f (s.leading v x.type name f))
  | some (.inborn j), none => .ok (.inborn j name v)
  | none, none => do return .value (← s.attr v name) []

/-- The methods that a ware has; only one that takes attachers can attach. -/
def wareMethods (w : Ware) : List String := ["use", "run"] ++ if w.attachers.isSome then ["attach"] else []

/-- The methods that a file has. -/
def fileMethods : List String :=
  ["message", "warn", "fail", "namespace", "has_namespace", "file_path", "move", "has_failed", "coerce"]

/-- The method that a name stands for on a value. What was stored under the name wins. -/
def method (s : Store) (v : Value) (name : String) : Except Failure Method :=
  let plain : Except Failure Method := do return .value (← s.attr v name) []
  let own (names : List String) (m : Method) : Except Failure Method :=
    if (s.attr? v name).isNone && names.contains name then .ok m else plain
  match v with
  | .worker i => s.instanceMethod v (s.worker i) name
  | .processor i => s.instanceMethod v (s.processor i) name
  | .type i =>
    match s.member? i name with
    | some (.inborn j) => .ok (.inborn j name v)
    | _ => plain
  | .ware i => own (wareMethods (s.runner.ware i)) (.ware i name)
  | .file i => own fileMethods (.file i name)
  | .context i => own ["to_dict"] (.mapping i)
  | _ => plain

/-- The methods that values of a kind have besides those that can be called by name, with the class that
has them. -/
def furtherMethods : Value → String × List String
  | .span _ => ("TimingResult", ["stop", "add_metric", "set_error", "fields"])
  | .token _ => ("ContextToken", ["restore"])
  | .step .. => ("WareStep", ["from_callable", "takes_next", "arguments"])
  | _ => ("", [])

/-- The name that a method of a value goes by, with its class. -/
def methodLabel? (s : Store) (v : Value) (name : String) : Option String :=
  match s.method v name with
  | .ok (.value f (_ :: _)) => some (s.functionName f)
  | .ok (.inborn j name _) =>
    match (s.type j).role with
    | .family => some ("Processor." ++ name)
    | _ => some name
  | .ok (.ware _ name) => some ((if name = "attach" then "AttachWare." else "Ware.") ++ name)
  | .ok (.file _ name) => some ("VFile." ++ name)
  | .ok (.mapping _) => some "ErrorContext.to_dict"
  | _ =>
    let (type, names) := furtherMethods v
    if names.contains name then some (type ++ "." ++ name)
    else
      match v with
      | .fault i =>
        match (s.fault i).detail with
        | .engine _ => if ["with_context", "to_dict"].contains name then some ("UnifiedError." ++ name) else none
        | _ => none
      | _ => none

/-- Whether a value is without an attribute, and it takes no question to anyone to tell so. -/
def lacks (s : Store) (v : Value) (name : String) : Bool :=
  match v with
  | .type _ | .worker _ | .processor _ | .ware _ | .span _ => false
  | v => name ≠ "__dict__" && (s.attr? v name).isNone && (s.methodLabel? v name).isNone

end Store
end Treeworks
