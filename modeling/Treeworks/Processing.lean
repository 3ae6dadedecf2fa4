import Treeworks.Following
import Treeworks.Passage
import Treeworks.Product

/-! Processors: families with a default instance, transformers and attachers, and the stages parse, run
and stringify. A tree is parked in the bag of a carrier file under the processor's name. Whatever has
the attributes of a processor can be one. -/
namespace Treeworks.Work

/-- The class of a value that the methods of a family are called for: a class itself, or that of an
instance. -/
def familyOf (v : Value) : Work Nat := do
  match v with
  | .type i => return i
  | .processor p => return ((← store).processor p).type
  | .worker w => return ((← store).worker w).type
  | v => failLacking v "default"

/-- Whether a value was made as an instance of a class. -/
def isMadeBy (s : Store) (v : Value) (type : Nat) : Bool := (s.instance? v).any fun x => s.descends x.type type

/-- Whether a value is an instance of a class: it was made as one, or it has that class. -/
def isInstance (s : Store) (v : Value) (type : Nat) : Bool :=
  isMadeBy s v type ||
    match (s.instance? v).bind fun x => s.instanceAttr? x "__class__" with
    | some (.type i) => s.descends i type
    | _ => false

/-- The default instance of a family, created on first use. Each family has its own. -/
def defaultProcessor (family : Nat) : Work Value := do
  let known := ((← query (·.type family)).attrs.get? "_default").getD .null
  if known ≠ .null then return known
  else
    let v : Value ← serve (.call (.type family) [] [])
    setAttribute (.type family) "_default" v
    return v

/-- A value that is an instance of the family stays itself; anything else gives the default. -/
def ensureProcessor (family : Nat) (v : Value) : Work Value := do
  if ← query (isInstance · v family) then return v else callMethod (.type family) "default" []

/-- The number of steps that a processor runs. -/
def transformers (p : Value) : Work Value := do return .int (← size (← attr p "ware"))

/-- Logs something of a processor with the number of its steps. -/
def logTransformers (p : Value) (event : String) : Work Unit := do
  log "unified.processor" .debug event [("processor", ← attr p "name"), ("transformers", ← transformers p)]

/-- Registers a transformer behind the others, or applies attachers. -/
def extendProcessor (p : Value) (method : String) (args : List Value) : Work Value := do
  if args.isEmpty then fail (.misfit ("Processor." ++ method) default)
  let _ ← callMethod (← attr p "ware") method args
  logTransformers p ("processor." ++ method)
  return p

/-- Builds the parser or compiler of a processor for a file. -/
def createWorker (p : Value) (part : String) (file settings : Value) : Work Value := do
  let type ← attr p part
  let file ← coerceFile file
  serve (.call type [.file file, settings, p] [])

/-- Whether a value looks like a tree: it has a type that counts as true. -/
def isNode (v : Value) : Work Bool := do
  if v = .null then return false
  match ← query (·.mapping? v) with
  | some entries => truth (entries.named "type")
  | none => do truth (← attrOrNull v "type")

/-- The arguments for tree and file of a call: a tree that stands alone and is none is taken as the file. -/
def treeAndFile (tree file : Value) : Work (Value × Value) := do
  if file ≠ .null || tree = .null then return (tree, file)
  else if ← isNode tree then return (tree, file)
  else return (.null, tree)

/-- The tree of a call: an explicit one wins and is parked only in an empty slot, else the slot's.
There has to be one. -/
def resolveTree (name tree : Value) (file : Nat) : Work Value := do
  let bag ← bagOf file name
  let parked ← treeIn bag
  let chosen := chosenTree tree parked
  if chosen = .null then
    let path ← filePath? file
    let context ← make fun s => s.contextFor name path
    raiseEngine .expectedNode "Expected node, got None" context .null
  else
    if parked = .null then setItem bag (.str "tree") (parkedTree tree parked)
    return chosen

/-- Runs the transformers of a processor over a tree. A callable in second place is the callback; a
first argument that is no tree is taken as the file. Gives the tree. -/
def runProcessor (p tree file done : Value) : Work Value := do
  let (file, done) := if ← isCallable file then (Value.null, file) else (file, done)
  let (tree, file) ← treeAndFile tree file
  let file ← coerceFile file
  let tree ← resolveTree (← attr p "name") tree file
  let done := if ← isCallable done then done else .hook .bail
  logTransformers p "processor.run.start"
  let _ ← if (← size (← attr p "ware")) = 0 then serve (.call done [.null, tree, .file file] [])
    else do callMethod (← attr p "ware") "run" [tree, .file file, done]
  return tree

/-- Compiles a tree. A second argument that is no file counts as settings when there is no third; a
first argument that is no tree is taken as the file. -/
def stringify (p tree file settings : Value) : Work Value := do
  let (file, settings) := if settings = .null && !file.isFile then (Value.null, file) else (file, settings)
  let (tree, file) ← treeAndFile tree file
  let file ← coerceFile file
  let _ ← resolveTree (← attr p "name") tree file
  let step ← openStep (.str "processor.stringify") (.bool true) (.str "debug")
    [("processor", ← attr p "name"), ("stage", .str "stringify"), ("file_path", ← filePath? file)]
  closeStep step (← attempt do
    callMethod (← callMethod p "create_compiler" [.file file, settings]) "compile" [])

/-- The most arguments that a method of a family takes. -/
def mostArguments (method : String) : Nat :=
  if method = "run" || method = "stringify" then 3 else 2

/-- Calls a method that families are born with for a processor. Parsing and processing begin when what
the call gives is awaited. -/
def processorMethod (method : String) (p : Value) (args : List Value) : Work Value := do
  if method = "use" || method = "attach" then extendProcessor p method args
  else if mostArguments method < args.length then
    fail (.excess ("Processor." ++ method) 1 (mostArguments method + 1) (args.length + 1))
  else
    let first := args.getD 0 .null
    let second := args.getD 1 .null
    let third := args.getD 2 .null
    match method with
    | "create_parser" => createWorker p "Parser" first second
    | "create_compiler" => createWorker p "Compiler" first second
    | "run" => runProcessor p first second third
    | "stringify" => stringify p first second third
    | "parse" => newCoroutine (.parse p first second)
    | "process" => newCoroutine (.process p first second)
    | method => failLacking p method

/-- Calls a method that families are born with. Called for a class, it is for the default instance. -/
def familyMethod (method : String) (receiver : Value) (args : List Value) : Work Value := do
  if method = "default" then
    if args.isEmpty then defaultProcessor (← familyOf receiver)
    else fail (.excess "Processor.default" 1 1 (args.length + 1))
  else if method = "ensure" then
    if args.length ≤ 1 then ensureProcessor (← familyOf receiver) (args.getD 0 .null)
    else fail (.excess "Processor.ensure" 1 2 (args.length + 1))
  else
    let p ← match receiver with
      | .type _ => callMethod receiver "default" []
      | v => pure v
    processorMethod method p args

end Treeworks.Work
