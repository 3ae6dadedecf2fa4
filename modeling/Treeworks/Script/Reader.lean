import Treeworks.Script.Syntax

/-! Reading scripts from data. -/
namespace Treeworks.Reader

/-- A text. -/
def text : Datum → Except String String
  | .str s => .ok s
  | d => .error ("not a text: " ++ d.render)

/-- Whether a datum counts as true. -/
def flag : Datum → Bool
  | .null => false
  | .bool b => b
  | .int n => n ≠ 0
  | .float x => x != 0
  | .str t => t ≠ ""
  | .arr items => !items.isEmpty
  | .obj fields => !fields.isEmpty

/-- A list of texts. -/
def textList : Datum → Except String (List String)
  | .arr items => items.mapM text
  | d => .error ("not a list: " ++ d.render)

/-- A number of seconds, or null. -/
def seconds : Datum → Except String (Option Seconds)
  | .null => .ok none
  | .bool b => .ok (some (.known (if b then 1 else 0)))
  | .int n => .ok (some (if (Float.ofInt n).isInf then .tooGreat else .known (Float.ofInt n)))
  | .float x => .ok (some (.known x))
  | d => .error ("not a number: " ++ d.render)

/-- A step of a path. -/
def key : Datum → Key
  | .null => .scalar .null
  | .bool b => .scalar (.bool b)
  | .int n => .scalar (.int n)
  | .float x => .scalar (.float x)
  | .str s => .scalar (.str s)
  | .arr _ => .compound "list"
  | .obj _ => .compound "dict"

/-- A path. -/
def path : Datum → Except String Path
  | .arr items => .ok (items.map key)
  | d => .error ("not a path: " ++ d.render)

/-- A function kind. -/
def functionKind (s : String) : FunctionKind :=
  if s = "object" then .object else if s = "nosig" then .unreadable else .plain

/-- The parts of a function, as they are read. -/
structure FunctionParts where
  name : String
  params : List String
  kind : FunctionKind
  asynchronous : Bool
  quiet : Bool
  leading : Option (List Expr)
  id : Option String
  body : List Act

/-- A function of which nothing was read yet. -/
def FunctionParts.initial : FunctionParts := ⟨"", ["tree", "file"], .plain, false, false, none, none, []⟩

/-- The function of its parts. -/
def FunctionParts.spec (p : FunctionParts) : FunctionSpec :=
  .mk p.name (Signature.ofTokens p.params) p.kind p.asynchronous p.quiet p.leading p.id p.body

mutual
/-- An expression. -/
def expr : Datum → Except String Expr
  | .null => .ok .null
  | .bool b => .ok (.bool b)
  | .int n => .ok (.int n)
  | .float x => .ok (.float x)
  | .str s => .ok (.str s)
  | .arr items => do return .list (← exprs items)
  | .obj [(tag, d)] => if tag.startsWith "$" then form tag d else do return .dict [(tag, ← expr d)]
  | .obj fields => do return .dict (← exprFields fields)

/-- Expressions in order. -/
def exprs : List Datum → Except String (List Expr)
  | [] => .ok []
  | d :: rest => do
    let e ← expr d
    let es ← exprs rest
    return e :: es

/-- Fields in order. -/
def exprFields : List (String × Datum) → Except String (List (String × Expr))
  | [] => .ok []
  | (name, d) :: rest => do
    let e ← expr d
    let es ← exprFields rest
    return (name, e) :: es

/-- A special form. -/
def form (tag : String) : Datum → Except String Expr
  | .str s =>
    if tag = "$ref" then .ok (.ref s)
    else if tag = "$future" then .ok (.future s)
    else if tag = "$done" then .ok (.callback s [])
    else .error ("unknown form " ++ tag)
  | .arr items =>
    if tag = "$set" then do return .set (← exprs items)
    else if tag = "$tuple" then do return .tuple (← exprs items)
    else if tag = "$coro" then do return .coroutine (← acts items)
    else if tag = "$awaitable" then do return .awaitable (← acts items)
    else if tag = "$point" then do
      match ← exprs items with
      | [line, column] => return .point line column
      | _ => .error "a point has a line and a column"
    else .error ("unknown form " ++ tag)
  | .obj fields =>
    if tag = "$fn" then do return .function (← functionParts fields .initial).spec
    else if tag = "$done" then do
      let parts ← functionParts fields .initial
      return .callback parts.name parts.body
    else if tag = "$node" then do return .record (← exprFields fields)
    else if tag = "$map" then do return .view (← exprFields fields)
    else .error ("unknown form " ++ tag)
  | _ => .error ("unknown form " ++ tag)

/-- The parts of a function, field by field. -/
def functionParts : List (String × Datum) → FunctionParts → Except String FunctionParts
  | [], parts => .ok parts
  | ("acts", .arr items) :: rest, parts => do functionParts rest { parts with body := ← acts items }
  | ("bind", .arr items) :: rest, parts => do functionParts rest { parts with leading := some (← exprs items) }
  | (field, d) :: rest, parts => do
    if field = "name" then functionParts rest { parts with name := ← text d }
    else if field = "params" then functionParts rest { parts with params := ← textList d }
    else if field = "async" then functionParts rest { parts with asynchronous := flag d }
    else if field = "kind" then functionParts rest { parts with kind := functionKind (← text d) }
    else if field = "quiet" then functionParts rest { parts with quiet := flag d }
    else if field = "id" then functionParts rest { parts with id := some (← text d) }
    else .error ("unknown function field " ++ field)

/-- Actions in order. -/
def acts : List Datum → Except String (List Act)
  | [] => .ok []
  | .arr items :: rest => do
    let a ← act items
    let as ← acts rest
    return a :: as
  | _ :: _ => .error "an action is a list"

/-- An action. -/
def act : List Datum → Except String Act
  | [.str "return"] => .ok (.give .null)
  | [.str "return", value] => do return .give (← expr value)
  | [.str "raise", .str name] => .ok (.raise name)
  | [.str "note", value] => do return .note (← expr value)
  | [.str "set", .str name, p, value] => do return .assign name (← path p) (← expr value)
  | [.str "push", .str name, p, value] => do return .push name (← path p) (← expr value)
  | [.str "incr", .str name, k] => .ok (.increment name (key k))
  | .str "call" :: .str name :: args => do return .call name (← exprs args)
  | [.str "hold", .str name, .str id] => .ok (.hold name id)
  | [.str how, .str name, reason] => do reportAct how name (← expr reason) .null none
  | [.str how, .str name, reason, position] => do
    if how = "use" then return .use name (← expr reason) [← expr position]
    else reportAct how name (← expr reason) (← expr position) none
  | [.str how, .str name, reason, position, .str id] => do
    if how = "use" then return .use name (← expr reason) [← expr position, .str id]
    else reportAct how name (← expr reason) (← expr position) (some id)
  | .str "use" :: .str name :: step :: args => do return .use name (← expr step) (← exprs args)
  | [.str "await", .str id] => .ok (.wait id)
  | [.str "sleep", .int n] => .ok (.sleep n.toNat)
  | _ => .error "unknown action"

/-- An action on a file, and the two actions that look like one. -/
def reportAct (how name : String) (reason position : Expr) (id : Option String) : Except String Act :=
  if how = "message" then .ok (.report .message name reason position id)
  else if how = "warn" then .ok (.report .warn name reason position id)
  else if how = "fail" then .ok (.report .fail name reason position id)
  else if how = "use" then .ok (.use name reason [])
  else if how = "run" then
    match reason with
    | .list items => .ok (.run name items)
    | _ => .error "a run takes a list"
  else .error ("unknown action " ++ how)
end

/-- The fields of an operation. -/
abbrev Fields := List (String × Datum)

namespace Fields

/-- A field that may be missing. -/
def optional {α : Type} (f : Fields) (name : String) (read : Datum → Except String α) :
    Except String (Option α) :=
  match Table.get? f name with
  | some d => do return some (← read d)
  | none => .ok none

/-- A field that has to be there. -/
def required {α : Type} (f : Fields) (name : String) (read : Datum → Except String α) : Except String α :=
  match Table.get? f name with
  | some d => read d
  | none => .error ("missing field " ++ name)

/-- A text that has to be there. -/
def text (f : Fields) (name : String) : Except String String := f.required name Reader.text

/-- A text that may be missing or null. -/
def text? (f : Fields) (name : String) : Except String (Option String) :=
  match Table.get? f name with
  | some .null | none => .ok none
  | some d => do return some (← Reader.text d)

/-- An expression; a missing one is null. -/
def expr (f : Fields) (name : String) : Except String Expr := do
  return (← f.optional name Reader.expr).getD .null

/-- A list of expressions; a missing one is empty. -/
def exprs (f : Fields) (name : String) : Except String (List Expr) :=
  match Table.get? f name with
  | none => .ok []
  | some (.arr items) => Reader.exprs items
  | some _ => .error ("not a list: " ++ name)

/-- A table of expressions; a missing one is empty. -/
def table (f : Fields) (name : String) : Except String (List (String × Expr)) :=
  match Table.get? f name with
  | none => .ok []
  | some (.obj fields) => Reader.exprFields fields
  | some _ => .error ("not an object: " ++ name)

/-- Actions; missing ones are none. -/
def acts (f : Fields) (name : String) : Except String (List Act) :=
  match Table.get? f name with
  | none => .ok []
  | some (.arr items) => Reader.acts items
  | some _ => .error ("not a list: " ++ name)

/-- A truth value; a missing one is the given one. -/
def flag (f : Fields) (name : String) (standard : Bool) : Bool :=
  ((Table.get? f name).map Reader.flag).getD standard

end Fields

/-- An error kind. -/
def errorKind (s : String) : Except String ErrorKind :=
  match s with
  | "ValueError" => .ok .value
  | "RuntimeError" => .ok .runtime
  | "TypeError" => .ok .type
  | "Halt" => .ok .halt
  | "UnifiedError" => .ok .engine
  | "ParseError" => .ok .parse
  | "TransformError" => .ok .transform
  | "CompileError" => .ok .compile
  | "ProcessorConfigError" => .ok .config
  | "ExpectedNodeError" => .ok .expectedNode
  | s => .error ("unknown error kind " ++ s)

/-- The production of a parser or compiler. -/
def production (s : String) : Except String Production :=
  match s with
  | "line" => .ok .lines
  | "echo" => .ok .echo
  | "slot" => .ok .slot
  | "count" => .ok .count
  | "text" => .ok .text
  | "tags" => .ok .tags
  | s => .error ("unknown kind " ++ s)

/-- A parser or compiler. -/
def worker (f : Fields) (standard : Production) : Except String WorkerSpec := do
  let id ← f.text "id"
  return {
    id := id
    name := (← f.text? "name").getD id
    production := ← match ← f.text? "kind" with
      | some s => production s
      | none => .ok standard
    acts := ← f.acts "acts"
    asynchronous := f.flag "async" false
    attrs := ← f.table "attrs"
    refusal := ← f.text? "init_raise" }

/-- An operation on a file's diagnostics. -/
def reporting (how : Reporting) (f : Fields) : Except String Op := do
  return .report how (← f.text "of") (← f.expr "reason") (← f.expr "position") (← f.text? "id")

/-- A value at the beginning of a path, and the path. -/
def placed : Datum → Except String (String × Path)
  | .arr (.str id :: rest) => .ok (id, rest.map key)
  | _ => .error "not a place"

/-- An event for a filter. -/
def filterEvent : Datum → Except String (Expr × List (String × Expr))
  | .arr [method, .obj fields] => do return (← expr method, ← exprFields fields)
  | _ => .error "not an event"

/-- A pair of texts. -/
def textPair : Datum → Except String (String × String)
  | .arr [.str a, .str b] => .ok (a, b)
  | _ => .error "not a pair"

/-- A list, each item read. -/
def listOf {α : Type} (read : Datum → Except String α) : Datum → Except String (List α)
  | .arr items => items.mapM read
  | _ => .error "not a list"

/-- An operation on the logging context. -/
def contextOp (f : Fields) : Except String Op := do
  let action ← match ← f.text "how" with
    | "get" => .ok ContextAction.get
    | "set" => .ok .set
    | "bind" => .ok .bind
    | "clear" => .ok .clear
    | "merge" => .ok .merge
    | "event" => .ok .event
    | "push" => do pure (.push (← f.text? "id"))
    | "restore" => do pure (.restore (← f.text "of"))
    | s => .error ("unknown context action " ++ s)
  return .context action (← f.table "values") (← f.table "base")

/-- An operation without operations inside. -/
def simpleOp (name : String) (f : Fields) : Except String Op := do
  match name with
  | "val" => return .val (← f.text "id") (← f.expr "value")
  | "show" => return .show (← f.text "of")
  | "get" => return .get (← f.text "of") (← f.required "path" path)
  | "set" => return .set (← f.text "of") (← f.required "path" path) (← f.expr "value")
  | "append" => return .append (← f.text "of") (← f.required "path" path) (← f.expr "value")
  | "same" => do
    let a ← f.required "a" placed
    let b ← f.required "b" placed
    return .same a.1 a.2 b.1 b.2
  | "is_node" => return .isNode (← f.expr "value")
  | "error" => return .error {
      id := ← f.text "id"
      kind := ← errorKind (← f.text "kind")
      message := (← f.optional "message" expr).getD (.str "")
      category := ← f.text? "category"
      context := ← if Table.has f "context" then do pure (some (← f.table "context")) else pure none
      cause := ← f.text? "cause"
      option := ← f.optional "option" expr
      node := ← f.expr "node" }
  | "describe" => return .describe (← f.text "of")
  | "with_context" => return .withContext (← f.text "of") (← f.table "values")
  | "file" => return .file (← f.text "id") (← f.optional "options" expr)
  | "coerce" => return .coerce (← f.text? "id") (← f.expr "value")
  | "ns" => return .bag (← f.text "of") (← f.expr "key")
  | "ns_set" => do
    return .setBag (← f.text "of") (← f.expr "key") ((← f.optional "name" expr).getD (.str "tree")) (← f.expr "value")
  | "has_ns" => return .hasBag (← f.text "of") (← f.expr "key")
  | "path" => return .path (← f.text "of")
  | "move" => return .move (← f.text "of") (← f.expr "filename") (← f.expr "directory") (← f.expr "extension")
  | "failed" => return .failed (← f.text "of")
  | "str" => return .str (← f.text "of")
  | "repr" => return .repr (← f.text "of")
  | "message" => reporting .message f
  | "warn" => reporting .warn f
  | "fail" => reporting .fail f
  | "vmessage" => do
    return .diagnostic (← f.text? "id") (← f.expr "reason") (← f.expr "position")
      ((← f.optional "file" expr).getD (.str "")) (← f.optional "fatal" expr)
  | "class" => do
    let id ← f.text "id"
    return .type id ((← f.text? "name").getD id) ((← f.optional "module" expr).getD (.str "m"))
      ((← f.optional "bases" textList).getD []) (← f.table "attrs") (← f.expr "doc")
  | "derive" => return .derive (← f.text "id") (← f.text "of")
  | "classinfo" => return .typeInfo (← f.text "of")
  | "ware" => return .ware (← f.text "id") (← f.expr "context") (f.flag "attach" false)
  | "use" => do
    let times ← match Table.get? f "repeat" with
      | some (.int n) => pure n.toNat
      | _ => pure 1
    return .use (← f.text "on") (← f.expr "step") (← f.exprs "args") times
  | "attach" => return .attach (← f.text "on") (← f.expr "attacher") (← f.exprs "options")
  | "steps" => return .steps (← f.text "on")
  | "step" => return .step (← f.expr "fn")
  | "bail" => return .bail (← f.exprs "args")
  | "run" => return .run (← f.text "on") (← f.exprs "args")
  | "call" => return .call (← f.text "of") (← f.exprs "args")
  | "settle" => return .settle (← f.text "future") (← f.expr "value") (← f.text? "error")
  | "cancel" => return .cancel (← f.text "future")
  | "parser" => return .parser (← worker f .lines)
  | "compiler" => return .compiler (← worker f .text)
  | "family" => do
    return .family (← f.text "id") (← f.expr "name") (← f.expr "parser") (← f.expr "compiler") (← f.expr "data")
  | "subclass" => do
    let id ← f.text "id"
    return .subfamily id (← f.text "of") ((← f.text? "name").getD id) (← f.table "attrs")
  | "new" => return .new (← f.text? "id") (← f.text "of") (← f.exprs "args")
  | "default" => return .default (← f.text? "id") (← f.text "of")
  | "ensure" => return .ensure (← f.text? "id") (← f.text "of") (← f.exprs "args")
  | "create" => return .create (← f.text "on") ((← f.text "what") = "parser") (← f.exprs "args") (← f.text? "id")
  | "stringify" => return .stringify (← f.text "on") (← f.exprs "args")
  | "parse" => return .parse (← f.text "on") (← f.exprs "args") (← f.text? "id") (← f.text? "task")
  | "process" => return .process (← f.text "on") (← f.exprs "args") (← f.text? "file_id") (← f.text? "task")
  | "ctx" => contextOp f
  | "span" => return .span (← f.text "of")
  | "timing" => return .timing {
      id := ← f.text "id"
      step := ← f.expr "step"
      spanId := ← f.optional "span_id" expr
      parentId := ← f.expr "parent_span_id"
      startedAt := (← f.optional "started_at" seconds).join
      endedAt := (← f.optional "ended_at" seconds).join
      metrics := ← f.table "metrics"
      error := ← f.text? "error"
      added := ← f.table "add"
      setError := ← f.text? "set_error"
      stop := f.flag "stop" false }
  | "span_id" => return .spanId
  | "emit" => do
    return .emit ((← f.text? "logger").getD "unified.driver") (← f.expr "level") (← f.expr "event")
      (← f.table "values")
  | "filter" => do
    return .filter (← f.expr "families") (← f.expr "level") (← f.required "events" (listOf filterEvent))
  | "env" => do
    let vars ← match Table.get? f "vars" with
      | some (.obj fields) => pure fields
      | _ => pure []
    return .env vars (f.flag "reset" true) (← f.optional "dotenv" (listOf textPair))
  | "settings" => return .settings
  | "configure" => do
    return .configure (← f.optional "level" expr) (← f.optional "format" expr)
      (← f.optional "debug_processors" expr) (f.flag "force" false)
  | "configured" => return .configured
  | s => .error ("unknown operation " ++ s)

/-- An operation, the operations inside it given. -/
def opOf (f : Fields) (inner : List Op) : Except String Op := do
  match ← f.text "do" with
  | "scoped" => return .scoped (← f.table "values") inner (← f.text? "raise")
  | "log_step" => do
    return .logStep (← f.expr "event") ((Table.get? f "log_start").map flag) (← f.optional "level" expr)
      (← f.table "values") (← f.table "metrics") inner (← f.text? "raise") (← f.text? "id")
  | "timed" => return .timed (← f.optional "step" expr) inner (← f.text? "raise") (← f.text? "id")
  | name => simpleOp name f

mutual
/-- An operation. -/
def op : Datum → Except String Op
  | .obj fields => do opOf fields (← innerOps fields)
  | _ => .error "an operation is an object"

/-- The operations inside an operation. -/
def innerOps : List (String × Datum) → Except String (List Op)
  | [] => .ok []
  | ("ops", .arr items) :: _ => ops items
  | _ :: rest => innerOps rest

/-- Operations in order. -/
def ops : List Datum → Except String (List Op)
  | [] => .ok []
  | d :: rest => do
    let o ← op d
    let os ← ops rest
    return o :: os
end

/-- A script. -/
def ofDatum (d : Datum) : Except String Script := do
  match d with
  | .obj fields =>
    let f : Fields := fields
    return {
      ops := ← match Table.get? fields "ops" with
        | some (.arr items) => ops items
        | _ => .error "a script has operations"
      loop := f.flag "loop" false
      logs := f.flag "logs" false }
  | _ => .error "a script is an object"

end Treeworks.Reader
