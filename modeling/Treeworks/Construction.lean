import Treeworks.Script.Body

/-! Calling a class: what it makes, and how that is prepared. A class makes a new instance unless one
along its ancestry says otherwise; what is no instance of it is given as it is. -/
namespace Treeworks.Work

/-- Tells the values among the attributes of a new class under which name they are there, as far as their classes
ask for that. -/
def nameParts (type : Nat) : Work Unit := do
  let _ ← each (fun e => do
    match ← special? e.2 "__set_name__" with
    | some m =>
      let _ ← callSpecial m [.type type, .str e.1]
      return ()
    | none => return ()) ((← store).type type).attrs
  return ()

/-- Tells of a new class the first class above it that asks for that. -/
def introduce (type : Nat) : Work Unit := do
  nameParts type
  let s ← store
  let asked := (s.type type).ancestry.tail.findSome? fun i => (s.type i).attrs.get? "__init_subclass__"
  match asked with
  | some f =>
    let _ : Value ← serve (.call f (if s.isPlainFunction f then [.type type] else []) [])
    return ()
  | none => return ()

/-- A class below another that owns a copy of every container. -/
def deriveType (base : Nat) : Work Nat := do
  let documented ← truth ((← store).type base).doc
  let i ← make fun s => s.derive base documented
  introduce i
  return i

/-- A private subclass of a class, or nothing for a family without one. -/
def deriveFor (base : Value) : Work Value := do
  match base with
  | .null => return .null
  | .type i => do return .type (← deriveType i)
  | v => failLacking v "__mro__"

/-- The values of some parameters in a call, in order; a parameter that is left out is null. -/
def boundArguments (callee : String) (signature : Signature) (args : List Value) (keywords : Table Value) :
    Work (List Value) := do
  match signature.bind args keywords with
  | .error misfit => fail (.misfit callee misfit)
  | .ok bound =>
    return bound.map fun e =>
      match e.2 with
      | .one v => v
      | _ => .null

/-- Prepares a processor: its own ware, its own subclasses of the family's parser and compiler, its own
copy of the data. A processor that was given to its family is left as it is. -/
def prepareProcessor (p : Value) (args : List Value) (keywords : Table Value) : Work Unit := do
  let given ← boundArguments "Processor.__init__" (.ofTokens ["self", "processor="]) (p :: args) keywords
  if given.getD 1 .null = p then return ()
  let family := Value.type (← familyOf p)
  let attachers ← newList []
  setAttribute p "ware" (← make fun s => s.addEmptyWare p (some attachers))
  setAttribute p "Parser" (← deriveFor (← attr family "Parser"))
  setAttribute p "Compiler" (← deriveFor (← attr family "Compiler"))
  let data ← attr family "data"
  if data ≠ .null then setAttribute p "data" (← deepCopy data)
  log "unified.processor" .debug "processor.created" [("processor", ← attr family "name")]

/-- Prepares a parser or compiler for a file, with settings and a processor; its class may refuse. -/
def prepareWorker (spec : WorkerSpec) (worker : Value) (args : List Value) (keywords : Table Value) : Work Unit := do
  let signature : Signature := .ofTokens ["self", "file", "settings", "processor"]
  let given ← boundArguments (spec.name ++ ".__init__") signature (worker :: args) keywords
  let file := given.getD 1 .null
  let settings := given.getD 2 .null
  let processor := given.getD 3 .null
  record (.obj [("new", .str spec.name), ("file", ← see file), ("settings", ← see settings),
    ("processor", ← see processor)])
  match spec.refusal with
  | some id => raiseValue (← lookup [] id)
  | none =>
    setAttribute worker "file" file
    setAttribute worker "settings" settings
    setAttribute worker "processor" processor

/-- A new instance of a class, without attributes. -/
def newInstance (type : Nat) : Work Value := make fun s => s.addInstance type

/-- What a class makes for some arguments before it is prepared. A family that is given one of its
instances makes no other; a class that nothing prepares takes no arguments. -/
def allocate (type : Nat) (args : List Value) (keywords : Table Value) : Work Value := do
  let s ← store
  match s.member? type "__new__" with
  | some (.value f) => serve (.call f (if s.isPlainFunction f then .type type :: args else args) keywords)
  | some (.inborn _) =>
    let given ← boundArguments "Processor.__new__" (.ofTokens ["cls", "processor="]) (.type type :: args) keywords
    let v := given.getD 1 .null
    if isInstance s v type then return v else newInstance type
  | none =>
    if (args.isEmpty && keywords.isEmpty) || (s.member? type "__init__").isSome then newInstance type
    else fail (.takesNothing (s.type type).name)

/-- Prepares an instance as its class says. What prepares it gives nothing. -/
def prepare (v : Value) (args : List Value) (keywords : Table Value) : Work Unit := do
  let s ← store
  match s.member? (← familyOf v) "__init__" with
  | some (.value f) =>
    let result : Value ← serve (.call f (if s.isPlainFunction f then v :: args else args) keywords)
    if result ≠ .null then failFor result .notNothing
  | some (.inborn j) =>
    match (s.type j).role with
    | .family => prepareProcessor v args keywords
    | .worker _ spec => prepareWorker spec v args keywords
    | .plain => return ()
  | none => return ()

/-- Calls a class with arguments. -/
def instantiate (type : Nat) (args : List Value) (keywords : Table Value) : Work Value := do
  let v ← allocate type args keywords
  if ← query (isMadeBy · v type) then prepare v args keywords
  return v

end Treeworks.Work
