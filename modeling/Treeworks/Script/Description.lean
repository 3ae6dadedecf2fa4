import Treeworks.Interpreter

/-! The states of objects that operations answer with. -/
namespace Treeworks.Work

/-- Attributes of a value as they are seen, in order. -/
def seeAttrs (v : Value) (names : List String) : Work (List (String × Datum)) :=
  each (fun name => do return (name, ← see (← attr v name))) names

/-- The state of a diagnostic. -/
def seeDiagnostic (v : Value) : Work Datum := do
  let parts ← seeAttrs v ["reason", "name", "line", "column", "file", "fatal", "cause"]
  return .obj (parts ++ [("str", .str (← printed v))])

/-- The mapping that an engine error stands for. -/
def seeFaultMapping (v : Value) (e : EngineFault) : Work Datum := do
  let message ← see e.message
  let category ← see (← attr e.category "value")
  let context ← contextDict (← attr v "context")
  let context : List (String × Datum) ← if ← truth context then do pure [("context", ← see context)]
    else pure []
  let cause ← attr v "cause"
  let cause : List (String × Datum) ← if cause = .null then pure [] else do
    pure [("cause", .str (← printed cause))]
  return .obj ([("error_type", .str e.kind.name), ("message", message), ("category", category)] ++ context ++ cause)

/-- What is known of an engine error besides its class and text. -/
def describeEngineFault (v : Value) (fault : Nat) (e : EngineFault) :
    Work (List (String × Datum)) := do
  let repr ← written v
  let message ← see e.message
  let category ← see (← attr e.category "value")
  let context ← see (← contextDict e.context)
  let metadata ← see (← attr e.context "metadata")
  let mapping ← seeFaultMapping v e
  let extra ← match e.kind with
    | .config => seeAttrs v ["option"]
    | .expectedNode => seeAttrs v ["node"]
    | _ => pure []
  return [("repr", .str repr), ("message", message), ("category", category), ("context", context),
    ("metadata", metadata), ("dict", mapping), ("cause", ← see e.cause),
    ("chained", .bool (((← store).fault fault).chained = e.cause))] ++ extra

/-- The description of an error, or of any other value as one. -/
def describeFault (v : Value) : Work (List (String × Datum)) := do
  let s ← store
  let head : List (String × Datum) := [("kind", .str (s.typeName v)), ("str", .str (← printed v))]
  let known : Option (Nat × EngineFault) := match v with
    | .fault i =>
      match (s.fault i).detail with
      | .engine e => some (i, e)
      | _ => none
    | _ => none
  match known with
  | some (i, e) => do
    let category ← see (← attr e.category "value")
    return head ++ [("categorize", category)] ++ (← describeEngineFault v i e)
  | none => return head ++ [("categorize", .str Category.unknown.name)]

/-- The names that belong to every class. -/
def hiddenAttrs : List String := ["__module__", "__doc__", "__dict__", "__weakref__", "__qualname__", "__init__"]

/-- The id of a class, or else its name. -/
def typeLabel (i : Nat) : Work Datum := do
  let m ← machine
  return .str ((m.idOf? (.type i)).getD (m.store.type i).name)

/-- An attribute of a class as it is seen; a method that needs no instance is wrapped. -/
def seeOwn (t : TypeDef) (name : String) (v : Value) : Work Datum :=
  if !t.fixed.contains name then see v
  else if name = "__new__" then return tagged "$fn" (.str "staticmethod")
  else return tagged "$instance" (.str "classmethod")

/-- What the base class of all families has besides its values: methods that need no instance, and methods that
can do with the default one. -/
def seeFamilyMethods (t : TypeDef) : Table Datum :=
  let shown (name : String) : Option (String × Datum) :=
    if t.attrs.has name || ["__init__", "__repr__"].contains name then none
    else if name = "__new__" then some (name, tagged "$fn" (.str "staticmethod"))
    else if ["default", "ensure"].contains name then some (name, tagged "$instance" (.str "classmethod"))
    else some (name, tagged "$instance" (.str "dualmethod"))
  match t.role, t.bases with
  | .family, [] => t.role.methods.filterMap shown
  | _, _ => []

/-- What is known of a class. -/
def seeType (i : Nat) : Work Datum := do
  let s ← store
  let t := s.type i
  let own := t.attrs.filter fun e =>
    !hiddenAttrs.contains e.1 && (!s.isPlainFunction e.2 || t.fixed.contains e.1)
  let own ← each (fun e => do return (e.1, ← seeOwn t e.1 e.2)) own
  return .obj [
    ("name", .str t.name), ("qualname", .str t.qualname), ("module", ← see t.module), ("doc", ← see t.doc),
    ("mro", .arr (← each typeLabel t.ancestry)), ("own", .obj (own ++ seeFamilyMethods t))]

/-- The classes above that of an instance. -/
def typesAbove (s : Store) : Value → List Nat
  | .worker i => (s.type (s.worker i).type).ancestry.drop 1
  | .processor i => (s.type (s.processor i).type).ancestry.drop 1
  | _ => []

/-- The state of a parser or compiler that was created. -/
def seeCreated (v : Value) : Work Datum := do
  let parts ← seeAttrs v ["file", "settings", "processor"]
  let m ← machine
  let bases := (typesAbove m.store v).map fun i => Datum.str ((m.idOf? (.type i)).getD "?")
  return .obj ([("class", .str (m.store.typeName v))] ++ parts ++ [("bases", .arr bases)])

/-- A count that may be unknown. -/
def seeCount : Option Nat → Datum
  | some n => .int n
  | none => .null

/-- The steps of a ware, and its attachers if it takes any. -/
def seeSteps (i : Nat) : Work Datum := do
  let ware := (← store).runner.ware i
  let count ← size (.ware i)
  let parts := ["name", "required", "accepted", "wants_context"]
  let steps ← each (fun step => do return Datum.arr (← each (fun part => do see (← attr step part)) parts))
    (← elements ware.steps)
  let attachers ← match ware.attachers with
    | some v => do pure [("attachers", Datum.arr (← each see (← elements v)))]
    | none => pure []
  return .obj ([("len", .int count), ("steps", .arr steps)] ++ attachers)

/-- What is known of a step: its counts, and what it takes of none to four inputs. -/
def seeStep (step : Step) : Work Datum := do
  let arities := List.range 5
  return .obj [
    ("name", ← see step.name), ("required", seeCount step.required), ("accepted", seeCount step.accepted),
    ("wants_context", .bool step.takesContext),
    ("takes_next", .arr (arities.map fun n => .bool (step.takesNext n))),
    ("arguments", .arr (arities.map fun n => .int (step.arguments (List.replicate n .null)).length))]

/-- The state of a logging context. -/
def seeContext (c : LogContext) : Work Datum := do
  let fields ← each (fun e => do return (e.1, ← takenOver seenDepth e.2)) c.entries
  return .obj (← seeTable fields)

/-- The state of a span. Its duration shows only for steps that were measured. -/
def seeSpan (i : Nat) : Work Datum := do
  let m ← machine
  let span := m.store.span i
  let fields := (← spanFields span).map fun e => (e.1.keyText, e.2)
  let shown ← entryFields fields
  let _ ← elementNumber span.step
  let shown ← match Table.get? fields "duration_ms" with
    | some v => do
      if ← isAmong span.step m.measured then pure (Table.set shown "duration_ms" (← see v)) else pure shown
    | none => pure shown
  return .obj [
    ("step", ← see span.step), ("status", .str (if span.error = .null then "ok" else "error")),
    ("stopped", .bool (span.endedAt ≠ .null)), ("fields", .obj shown)]

/-- The settings as an answer. -/
def seeSettings (r : Except SettingsFault Settings) : Datum :=
  match r with
  | .ok s => .obj [
    ("log_level", .str s.logLevel), ("log_format", .str s.logFormat),
    ("log_debug_processors", .arr (s.debugProcessors.map .str)), ("cached", .bool true)]
  | .error .unreadable => .obj [("invalid", .str "SettingsError")]
  | .error .tooDeep => .obj [("invalid", .str "RecursionError")]
  | .error (.invalid fields) => .obj [
    ("invalid", .str "ValidationError"),
    ("fields", .arr (Datum.sorted (fields.map fun e => .arr [.str e.1, .str e.2])))]

/-- The configuration of logging as an answer. -/
def seeLogging (l : Logging) : Datum :=
  .obj [
    ("configured", .bool l.configured), ("root", .int l.rootLevel), ("unified", .int l.ownLevel),
    ("renderer", match l.chain with
      | some c => .str (match c.format with | .data => "JSONRenderer" | .console => "ConsoleRenderer")
      | none => .null),
    ("family_filter", .bool (l.chain.any (·.filter.isSome)))]

end Treeworks.Work
