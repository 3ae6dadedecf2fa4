import Treeworks.Processing

/-! Bodies of functions, parsers and compilers: their actions, one after the other. -/
namespace Treeworks.Work

/-- Reports a diagnostic against a file. A fatal one is also logged, and raised unless the file is
quiet. -/
def report (how : Reporting) (file : Nat) (reason position : Value) : Work Value := do
  match how with
  | .message => newMessage file reason position
  | .warn => recordMessage file reason position false
  | .fail =>
    let message ← recordMessage file reason position true
    let path ← trueOr (← attr message "file") .null
    log "unified.core.vfile" .debug "vfile.fail"
      [("file_path", path), ("reason", ← attr message "reason"), ("at", ← attr message "name")]
    if ← truth (← query (·.file file)).quiet then return message
    else raiseValue message

/-- Calls a method of a file that reports a diagnostic. -/
def reportBy (how : Reporting) (file : Nat) (args : List Value) : Work Value := do
  match args with
  | [reason] => report how file reason .null
  | [reason, position] => report how file reason position
  | args => fail (.excess ("VFile." ++ how.name) 2 3 (args.length + 1))

/-- Calls a method of a file. Its parts can be moved by name alone. -/
def fileMethod (file : Nat) (name : String) (args : List Value) : Work Value := do
  match name, args with
  | "message", args => reportBy .message file args
  | "warn", args => reportBy .warn file args
  | "fail", args => reportBy .fail file args
  | "namespace", [key] => bagOf file key
  | "has_namespace", [key] => do return .bool (← hasBag file key)
  | "file_path", [] => filePath file
  | "move", [] => return .file file
  | "has_failed", [] => do return .bool (← hasFailed file)
  | "coerce", [] => newFile .null
  | "coerce", [v] => do return .file (← coerceFile v)
  | name, args => fail (.excess ("VFile." ++ name) 1 1 (args.length + 1))

/-- Does an action; the value of one that ends the body. Waiting and sleeping have no place in a
body that cannot be suspended. -/
def act (locals : Table Value) : Act → Work (Option Value)
  | .give value => do return some (← evaluate locals value)
  | .raise name => do raiseValue (← lookup locals name)
  | .note value => do
    let v ← evaluate locals value
    record (.obj [("note", ← see v)])
    return none
  | .assign name path value => do
    let v ← lookup locals name
    let new ← evaluate locals value
    assignAt v path new
    return none
  | .push name path value => do
    let v ← lookup locals name
    let new ← evaluate locals value
    extend (← walk v path) new
    return none
  | .increment name key => do
    increment (← lookup locals name) key
    return none
  | .call name args => do
    let f ← lookup locals name
    let args ← evaluateAll locals args
    let _ ← serve (.call f args [])
    return none
  | .hold name id => do
    register id (← lookup locals name)
    return none
  | .report how name reason position id => do
    let file ← lookup locals name
    let reason ← evaluate locals reason
    let position ← evaluate locals position
    let v ← callMethod file how.name [reason, position]
    match id with
    | some id => register id v
    | none => pure ()
    return none
  | .use name step args => do
    let v ← lookup locals name
    let step ← evaluate locals step
    let args ← evaluateAll locals args
    let _ ← callMethod v "use" (step :: args)
    return none
  | .run name args => do
    let v ← lookup locals name
    let args ← evaluateAll locals args
    let _ ← callMethod v "run" args
    return none
  | .wait _ | .sleep _ => return none

/-- Does actions until one ends the body. -/
def actAll (locals : Table Value) : List Act → Work (Option Value)
  | [] => pure none
  | a :: rest => do
    match ← act locals a with
    | some v => return some v
    | none => actAll locals rest

/-- The locals that the actions of a worker see: its file, settings and processor, as far as it has them. -/
def workerLocals (worker : Value) : Work (Table Value) := do
  let found ← each (fun name => do return (← attr? worker name).map (name, ·)) ["file", "settings", "processor"]
  return found.filterMap id

/-- The event of a worker that begins its work. -/
def recordWork (parses : Bool) (spec : WorkerSpec) : Work Unit :=
  record (.obj [(if parses then "parse" else "compile", .str spec.name)])

/-- Lets a worker do its work by the part that one of its classes has in it: now, or when awaited. -/
def doWork (worker : Value) (type : Nat) : Work Value := do
  match (← query (·.type type)).role with
  | .worker parses spec =>
    if spec.asynchronous then newCoroutine (.work worker type)
    else
      recordWork parses spec
      match ← actAll (← workerLocals worker) spec.acts with
      | some v => return v
      | none => produce worker type
  | _ => return .null

end Treeworks.Work
