import Treeworks.Failure

/-! Attributes: what a class offers to its instances, and how attributes of objects are read and
written. -/
namespace Treeworks

/-- The methods that a class is born with. -/
def Role.methods : Role → List String
  | .plain => []
  | .worker true _ => ["__init__", "parse"]
  | .worker false _ => ["__init__", "compile"]
  | .family => ["__new__", "__init__", "__repr__", "default", "ensure", "use", "attach", "create_parser", "parse",
      "run", "create_compiler", "stringify", "process"]

/-- What a class offers under a name: a value, or a method that some class is born with. -/
inductive Member
  | value (v : Value)
  | inborn (type : Nat)
  deriving DecidableEq, Inhabited

/-- The attributes that every object has, besides `to_dict` of a context. -/
def objectAttributes : List String :=
  ["__class__", "__delattr__", "__dict__", "__dir__", "__doc__", "__eq__", "__format__", "__ge__",
    "__getattribute__", "__getstate__", "__gt__", "__hash__", "__init__", "__init_subclass__", "__le__",
    "__lt__", "__module__", "__ne__", "__new__", "__reduce__", "__reduce_ex__", "__repr__", "__setattr__",
    "__sizeof__", "__str__", "__subclasshook__", "__weakref__"]

/-- The attributes that every context has besides those of all objects. -/
def contextAttributes : List String :=
  ["to_dict", "processor", "stage", "file_path", "__annotations__", "__dataclass_fields__",
    "__dataclass_params__", "__match_args__"]

namespace Store

/-- What a class offers under a name: the first along its ancestry. -/
def member? (s : Store) (i : Nat) (name : String) : Option Member :=
  (s.type i).ancestry.findSome? fun j =>
    match (s.type j).attrs.get? name with
    | some v => some (.value v)
    | none => if (s.type j).role.methods.contains name then some (.inborn j) else none

/-- A value that a class offers under a name. -/
def typeAttr? (s : Store) (i : Nat) (name : String) : Option Value :=
  match s.member? i name with
  | some (.value v) => some v
  | _ => none

/-- Whether a class is another or descends from it. -/
def descends (s : Store) (i ancestor : Nat) : Bool := (s.type i).ancestry.contains ancestor

/-- An attribute of a class itself. -/
def classAttr? (s : Store) (i : Nat) (name : String) : Option Value :=
  let t := s.type i
  if name = "__name__" then some (.str t.name)
  else if name = "__qualname__" then some (.str t.qualname)
  else if name = "__module__" then some t.module
  else if name = "__doc__" then some t.doc
  else if name = "__annotations__" then t.attrs.get? name
  else s.typeAttr? i name

/-- Whether the instances of a class have dictionaries. -/
def givesDict (s : Store) (i : Nat) : Bool := (s.type i).extras.contains "__dict__"

/-- An attribute that an instance has in its dictionary. -/
def field? (s : Store) (x : Instance) (name : String) : Option Value := (s.dict x.fields).named? name

/-- What an instance has for its class and for its dictionary, unless its class offers something else there. -/
def bornInstanceAttr? (s : Store) (x : Instance) (name : String) : Option Value :=
  if name = "__class__" then some (.type x.type)
  else if name = "__dict__" && s.givesDict x.type then some (.dict x.fields)
  else none

/-- An attribute of an instance: in a slot, its own, or one that its class offers. -/
def instanceAttr? (s : Store) (x : Instance) (name : String) : Option Value :=
  match s.typeAttr? x.type name, s.field? x name with
  | some (.slot type name), _ => x.slots.get? (.slot type name)
  | offered, own =>
    if name = "__class__" || name = "__dict__" then offered.or (s.bornInstanceAttr? x name)
    else if own.isSome then own
    else if name = "__doc__" then some (s.type x.type).doc
    else if name = "__module__" then some (s.type x.type).module
    else offered

/-- The parts of a file. -/
def carrierAttrs (f : Carrier) : Table Value :=
  [("contents", f.contents), ("filename", f.filename), ("directory", f.directory),
    ("extension", f.extension), ("quiet", f.quiet), ("messages", f.messages), ("_namespaces", f.bags)]

/-- An attribute of a context; parts that are not there are null. -/
def contextAttr? (s : Store) (i : Nat) (name : String) : Option Value :=
  let d := s.contexts.getD i 0
  if name = "__dict__" then some (.dict d)
  else
    match (s.dict d).named? name with
    | some v => some v
    | none => if ["processor", "stage", "file_path"].contains name then some .null else none

/-- Whether a value is a plain function, which becomes a method of the instances of its class. -/
def isPlainFunction (s : Store) : Value → Bool
  | .function i =>
    match s.function i with
    | .script _ _ .plain _ _ _ | .callback .. => true
    | _ => false
  | .hook _ => true
  | _ => false

/-- The parts of a span. -/
def spanAttrs (span : Span) : Table Value :=
  [("step", span.step), ("span_id", span.id), ("parent_span_id", span.parent),
    ("started_at", span.startedAt), ("ended_at", span.endedAt), ("metrics", span.metrics), ("error", span.error),
    ("status", .str (if span.error = .null then "ok" else "error"))]

/-- The attributes that a function is born with: its names, or the function that it fixes arguments
of. -/
def bornFunctionAttrs : Function → Table Value
  | .fixed target leading keywords => [("func", target), ("args", leading), ("keywords", keywords)]
  | .script name _ .plain _ _ _ => [("__name__", .str name), ("__qualname__", .str name)]
  | .callback .. => [("__name__", .str "done"), ("__qualname__", .str "Script.done.<locals>.done")]
  | .bound label (.value f [v]) => [("__qualname__", .str label), ("__self__", v), ("__func__", f)]
  | .bound label _ => [("__qualname__", .str label)]
  | .script .. => []

/-- An attribute of a function: one that was stored on it, or one that it is born with. -/
def functionAttr (s : Store) (i : Nat) (name : String) : Option Value :=
  (s.functionAttr? i name).or ((bornFunctionAttrs (s.function i)).get? name)

/-- An attribute of a registered step. -/
def stepAttr? (step : Step) (name : String) : Option Value :=
  let count (n : Option Nat) : Value := (n.map fun n => .int n).getD .null
  (step.attrs.get? name).or <|
    Table.get? [("fn", step.callee), ("name", step.name), ("required", count step.required),
      ("accepted", count step.accepted), ("wants_context", .bool step.takesContext)] name

/-- The class of a value. -/
def typeOf (s : Store) : Value → Value
  | .worker i => .type (s.worker i).type
  | .processor i => .type (s.processor i).type
  | v => .native (s.typeName v)

/-- An attribute of a value, apart from its class. -/
def ownAttr? (s : Store) (v : Value) (name : String) : Option Value :=
  match v with
  | .record i =>
    if name = "__dict__" then some (.dict (s.recordDict i)) else (s.record i).named? name
  | .type i => s.classAttr? i name
  | .native type => if name = "__name__" || name = "__qualname__" then some (.str type) else none
  | .worker i => s.instanceAttr? (s.worker i) name
  | .processor i => s.instanceAttr? (s.processor i) name
  | .ware i =>
    let w := s.runner.ware i
    if name = "context" then some w.context
    else if name = "fns" then some w.steps
    else if name = "attachers" then w.attachers.or (w.attrs.get? name)
    else w.attrs.get? name
  | .step i => stepAttr? (s.runner.step i) name
  | .file i =>
    match (s.file i).attrs.get? name with
    | some v => some v
    | none => Table.get? (carrierAttrs (s.file i)) name
  | .fault i =>
    match (s.fault i).attrs.get? name with
    | some v => some v
    | none => ((s.fault i).bornAttrs i).get? name
  | .context i => s.contextAttr? i name
  | .span i =>
    match (s.span i).attrs.get? name with
    | some v => some v
    | none => (spanAttrs (s.span i)).get? name
  | .point i => Table.get? [("line", (s.point i).line), ("column", (s.point i).column)] name
  | .next t =>
    let ticket := s.runner.ticket t
    if name = "called" then some (.bool ticket.called)
    else if name = "_step" then some (.step ticket.step)
    else none
  | .category c => if name = "value" || name = "name" then some (.str c.name) else none
  | .function i => s.functionAttr i name
  | .hook _ => if name = "__name__" || name = "__qualname__" then some (.str (s.functionName v)) else none
  | _ => none

/-- An attribute of a value. -/
def attr? (s : Store) (v : Value) (name : String) : Option Value :=
  match s.ownAttr? v name with
  | some v => some v
  | none => if name = "__class__" then some (s.typeOf v) else none

/-- The failure to find an attribute on a value. -/
def lacking (s : Store) (v : Value) (name : String) : Failure :=
  match v with
  | .type i => .lacksClassAttribute (s.type i).name name
  | v => .lacksAttribute (s.typeName v) name

/-- An attribute that a value has to have. -/
def attr (s : Store) (v : Value) (name : String) : Except Failure Value :=
  match s.attr? v name with
  | some v => .ok v
  | none => .error (s.lacking v name)

/-- Whether a value has an attribute, be it one that every object has. -/
def hasAttr (s : Store) (v : Value) (name : String) : Bool :=
  (s.attr? v name).isSome || objectAttributes.contains name ||
    match v with
    | .context _ => contextAttributes.contains name
    | _ => false

/-- Whether a value can be called: functions, continuations, classes, and instances whose class says
how. -/
def isCallable (s : Store) : Value → Bool
  | .function _ | .hook _ | .next _ | .type _ | .native _ => true
  | .worker i => (s.member? (s.worker i).type "__call__").isSome
  | .processor i => (s.member? (s.processor i).type "__call__").isSome
  | _ => false

/-- Fails for a text that cannot name a class. -/
def checkTypeName (name : String) : Except Failure Unit :=
  if Text.hasHalf name then .error .notEncodable
  else if name.toList.contains (Char.ofNat 0) then .error .nullInName
  else .ok ()

/-- Stores an attribute on a class. Its names have to be texts. -/
def setTypeAttr (s : Store) (i : Nat) (name : String) (value : Value) : Except Failure Store :=
  if name = "__name__" then
    match value with
    | .str t => do
      checkTypeName t
      return s.updateType i fun d => { d with name := t }
    | v => .error (.notText name (s.typeName v))
  else if name = "__qualname__" then
    match value with
    | .str t => .ok (s.updateType i fun d => { d with qualname := t })
    | v => .error (.notText name (s.typeName v))
  else if name = "__module__" then .ok (s.updateType i fun t => { t with module := value })
  else if name = "__doc__" then .ok (s.updateType i fun t => { t with doc := value })
  else if ["__class__", "__bases__"].contains name then .error (.guarded name)
  else if ["__mro__", "__dict__", "__base__"].contains name then .error (.lacksAttribute "type" name)
  else .ok (s.updateType i fun t =>
    { t with attrs := t.attrs.set name value, fixed := t.fixed.filter (· ≠ name) })

/-- Stores a part of a file; none if files have no such part. -/
def setFilePart? (f : Carrier) (name : String) (value : Value) : Option Carrier :=
  if name = "contents" then some { f with contents := value }
  else if name = "filename" then some { f with filename := value }
  else if name = "directory" then some { f with directory := value }
  else if name = "extension" then some { f with extension := value }
  else if name = "quiet" then some { f with quiet := value }
  else if name = "messages" then some { f with messages := value }
  else if name = "_namespaces" then some { f with bags := value }
  else none

/-- Stores an attribute on a context. Its class stays; a dictionary can replace all attributes. -/
def setContextAttr (s : Store) (i : Nat) (name : String) (value : Value) : Except Failure Store :=
  if name = "__class__" then .error (.guarded name)
  else if name = "__dict__" then
    match value with
    | .dict d => .ok { s with contexts := s.contexts.modify i fun _ => d }
    | _ => .error (.guarded name)
  else if name = "__weakref__" then .error (.lacksAttribute "ErrorContext" name)
  else .ok (s.updateDict (s.contexts.getD i 0) fun t => t.set (.str name) value)

/-- What becomes of an error when an attribute is stored on it; what it was constructed with is a tuple. What it
was raised from and what was handled meanwhile are errors, and the former keeps quiet about the latter. -/
def withFaultAttr (f : Fault) (name : String) (value : Value) : Except Failure Fault :=
  let isErrorOrNull := value = .null || value.isFault
  match name, value with
  | "args", _ => .ok { f with args := value }
  | "__cause__", _ => if isErrorOrNull then .ok { f with chained := value, quieted := true } else .error .notCause
  | "__context__", _ => if isErrorOrNull then .ok { f with context := value } else .error .notCause
  | "__suppress_context__", .bool b => .ok { f with quieted := b }
  | "__traceback__", .null => .ok { f with raised := false }
  | "__traceback__", .trace _ => .ok { f with raised := true }
  | "__suppress_context__", _ | "__traceback__", _ | "__class__", _ => .error (.guarded name)
  | _, _ =>
    match f.detail.setPart? name value with
    | some detail => .ok { f with detail := detail }
    | none => .ok { f with attrs := f.attrs.set name value }

/-- Follows the errors that were being handled when others were raised, and drops the one that leads back to an
error. The fuel bounds the number of errors. -/
def withoutReturn (s : Store) (error : Value) : Nat → Value → Store
  | fuel + 1, .fault i =>
    let context := (s.fault i).context
    if context = error then s.updateFault i fun f => { f with context := .null } else withoutReturn s error fuel context
  | _, _ => s

/-- Notes that an error was raised while another was being handled, or none. -/
def noteRaised (s : Store) (error handled : Value) : Store :=
  match error with
  | .fault i =>
    let s := s.updateFault i fun f => { f with raised := true }
    if handled = .null || handled = error then s
    else (s.withoutReturn error s.faults.size handled).updateFault i fun f => { f with context := handled }
  | _ => s

/-- Stores an attribute on an error. -/
def setFaultAttr (s : Store) (i : Nat) (name : String) (value : Value) : Except Failure Store := do
  let f ← withFaultAttr (s.fault i) name value
  return s.updateFault i fun _ => f

/-- Stores an attribute on an instance: in a slot that its class has for it, else in its dictionary. Its class
can only become another class of the same layout, its dictionary only another dictionary. -/
def setInstanceAttr (s : Store) (v : Value) (x : Instance) (name : String) (value : Value) : Except Failure Store :=
  let lacks : Failure := .lacksAttribute (s.type x.type).name name
  match name, value, s.typeAttr? x.type name with
  | "__class__", .type i, _ =>
    if (s.type i).layout = (s.type x.type).layout && (s.type i).extras = (s.type x.type).extras then
      .ok (s.updateInstance v fun x => { x with type := i })
    else .error (.guarded name)
  | "__class__", _, _ => .error (.guarded name)
  | "__weakref__", _, _ => .error lacks
  | _, _, some (.slot type name) =>
    .ok (s.updateInstance v fun x => { x with slots := x.slots.set (.slot type name) value })
  | _, _, _ =>
    if !s.givesDict x.type then .error lacks
    else
      match name, value with
      | "__dict__", .dict d => .ok (s.updateInstance v fun x => { x with fields := d })
      | "__dict__", _ => .error (.guarded name)
      | _, _ => .ok (s.updateDict x.fields fun t => t.set (.str name) value)

/-- Stores an attribute on a span. Status and duration follow from the others. -/
def setSpanAttr (span : Span) (name : String) (value : Value) : Except Failure Span :=
  match name with
  | "step" => .ok { span with step := value }
  | "span_id" => .ok { span with id := value }
  | "parent_span_id" => .ok { span with parent := value }
  | "metrics" => .ok { span with metrics := value }
  | "error" => .ok { span with error := value }
  | "started_at" => .ok { span with startedAt := value }
  | "ended_at" => .ok { span with endedAt := value }
  | "status" | "duration_ms" => .error (.lacksAttribute "TimingResult" name)
  | _ => .ok { span with attrs := span.attrs.set name value }

/-- Stores an attribute on a step; none if it cannot be there. -/
def setStepPart? (s : Store) (step : Step) (name : String) (value : Value) : Option Step :=
  let count : Option (Option Nat) := match value with
    | .null => some none
    | v => v.whole?.map fun n => some n.toNat
  match name, value, count with
  | "fn", _, _ => some { step with callee := value }
  | "name", _, _ => some { step with name := value }
  | "required", _, some n => some { step with required := n }
  | "accepted", _, some n => some { step with accepted := n }
  | "wants_context", _, _ => some { step with takesContext := s.truthy value }
  | "required", _, none | "accepted", _, none => none
  | _, _, _ => some { step with attrs := step.attrs.set name value }

/-- Stores an attribute on a ware. -/
def setWareAttr (w : Ware) (name : String) (value : Value) : Ware :=
  match name, w.attachers with
  | "context", _ => { w with context := value }
  | "fns", _ => { w with steps := value }
  | "attachers", some _ => { w with attachers := some value }
  | _, _ => { w with attrs := w.attrs.set name value }

/-- Stores an attribute on a function. The names of a plain one have to be texts; a method takes none. -/
def setFunctionAttr (s : Store) (i : Nat) (name : String) (value : Value) : Except Failure Store :=
  let named := s.isPlainFunction (.function i) && (name = "__name__" || name = "__qualname__")
  let taken := (bornFunctionAttrs (s.function i)).has name
  match s.function i, named, value with
  | .bound .., _, _ => .error (.lacksAttribute "method" name)
  | .fixed .., _, _ =>
    if taken then .error (.lacksAttribute "partial" name)
    else .ok { s with functionAttrs := s.functionAttrs.modify i fun t => t.set name value }
  | _, true, .str _ | _, false, _ =>
    .ok { s with functionAttrs := s.functionAttrs.modify i fun t => t.set name value }
  | _, true, v => .error (.notText name (s.typeName v))

/-- Stores an attribute on an object. -/
def setAttr (s : Store) (v : Value) (name : String) (value : Value) : Except Failure Store :=
  match v with
  | .record i =>
    if name = "__class__" then .error (.guarded name)
    else if name = "__dict__" then .error (.lacksAttribute "SimpleNamespace" name)
    else .ok (s.updateDict (s.recordDict i) fun t => t.set (.str name) value)
  | .type i => s.setTypeAttr i name value
  | .worker i => s.setInstanceAttr v (s.worker i) name value
  | .processor i => s.setInstanceAttr v (s.processor i) name value
  | .ware i => .ok { s with runner := s.runner.updateWare i fun w => setWareAttr w name value }
  | .step i =>
    match s.setStepPart? (s.runner.step i) name value with
    | some step => .ok { s with runner := s.runner.updateStep i fun _ => step }
    | none => .error (s.lacking v name)
  | .file i => .ok (s.updateFile i fun f =>
      (setFilePart? f name value).getD { f with attrs := f.attrs.set name value })
  | .fault i => s.setFaultAttr i name value
  | .context i => s.setContextAttr i name value
  | .span i => do
    let span ← setSpanAttr (s.span i) name value
    return { s with spans := s.spans.modify i fun _ => span }
  | .next t =>
    .ok (if name = "called" then
      { s with runner := { s.runner with
        tickets := s.runner.tickets.modify t fun ticket => { ticket with called := s.truthy value } } }
    else s)
  | .function i => s.setFunctionAttr i name value
  | .point _ => .error (.frozen name)
  | v => .error (s.lacking v name)

end Store
end Treeworks
