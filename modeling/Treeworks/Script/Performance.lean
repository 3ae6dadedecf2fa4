import Treeworks.Family
import Treeworks.Text.Bytes
import Treeworks.Script.Description
import Treeworks.Script.Reader

/-! Performing scripts: each operation gives its result, or the error that it raised, with what
happened meanwhile. -/
namespace Treeworks.Work

/-- The registered value of an id. -/
def registered (id : String) : Work Value := lookup [] id

/-- The registered value of an id, or null if there is no id. -/
def registered? (id : Option String) : Work Value :=
  match id with
  | some id => registered id
  | none => pure .null

/-- Calls a method of whatever an id stands for. -/
def ask (id method : String) (args : List Value) : Work Value := do callMethod (← registered id) method args

/-- The class that an id stands for. -/
def typeOf (id : String) : Work Nat := do
  match ← registered id with
  | .type i => return i
  | v => failLacking v "__mro__"

/-- The class that an id stands for, as a base of another. -/
def baseOf (id : String) : Work Nat := do
  match ← registered id with
  | .type i => return i
  | v => failFor v .notBase

/-- Registers a value if an id is given. -/
def registerAs (id : Option String) (v : Value) : Work Unit :=
  match id with
  | some id => register id v
  | none => pure ()

/-- Registers an object if an id is given and it has none yet. -/
def registerNew (id : Option String) (v : Value) : Work Unit := do
  if !(← isRegistered v) then registerAs id v

/-- The first name that is none of the given ones. -/
def strangeName (names : List String) (entries : Table Value) : String :=
  (entries.keys.find? (!names.contains ·)).getD ""

/-- The parts of an error's context. -/
def contextParts : List String := ["processor", "stage", "file_path", "metadata"]

/-- The context that an error is constructed with. -/
def newFaultContext (entries : Table Value) : Work Value := do
  if entries.keys.all contextParts.contains then
    let metadata ← match entries.get? "metadata" with
      | some v => pure v
      | none => newDict []
    let part (name : String) : String × Value := (name, (entries.get? name).getD .null)
    make fun s => s.addContext [part "processor", part "stage", part "file_path", ("metadata", metadata)]
  else fail (.misfit "ErrorContext.__init__" (.unknown (strangeName contextParts entries)))

/-- The class of an engine error. -/
def engineKind? : ErrorKind → Option EngineKind
  | .engine => some .general
  | .parse => some .parse
  | .transform => some .transform
  | .compile => some .compile
  | .config => some .config
  | .expectedNode => some .expectedNode
  | _ => none

/-- The class of any other error. -/
def plainKind : ErrorKind → PlainKind
  | .value => .value
  | .runtime => .runtime
  | .type => .type
  | _ => .halt

/-- The optional parts that an error is constructed with, by name. -/
structure FaultOptions where
  category : Option Category
  context : Option Value
  cause : Option Value
  option : Option Value

/-- The optional parts of an error to construct. -/
def faultOptions (spec : ErrorSpec) : Work FaultOptions := do
  let category ← match spec.category with
    | none => pure none
    | some name =>
      match Category.ofName? name with
      | some category => pure (some category)
      | none => fail (.lacksKey name)
  let context ← match spec.context with
    | some fields => do pure (some (← newFaultContext (← evaluateFields [] fields)))
    | none => pure none
  let cause ← match spec.cause with
    | some id => do pure (some (← registered id))
    | none => pure none
  let option ← match spec.option with
    | some e => do pure (some (← evaluate [] e))
    | none => pure none
  return ⟨category, context, cause, option⟩

/-- The names of the parts that are given. -/
def FaultOptions.given (o : FaultOptions) : List String :=
  (o.category.map fun _ => "category").toList ++ (o.context.map fun _ => "context").toList ++
    (o.cause.map fun _ => "cause").toList ++ (o.option.map fun _ => "option").toList

/-- Constructs an error that carries a category and a context. Only an error of a configuration takes an
option, and a cause has to be an error. -/
def newEngineFault (kind : EngineKind) (message node : Value) (o : FaultOptions) : Work Value := do
  if kind ≠ .config && o.option.isSome then fail (.misfit kind.name (.unknown "option"))
  let message ← match kind with
    | .expectedNode => do pure (Value.str ("Expected node, got " ++ (← written node)))
    | _ => pure message
  let context ← match o.context with
    | some c => pure c
    | none => make fun s => s.contextFor .null .null
  let cause := o.cause.getD .null
  if cause ≠ .null && !cause.isFault then fail .notCause
  let category := Value.category (o.category.getD kind.category)
  make fun s => s.addFault (.engine ⟨kind, message, category, context, cause, o.option.getD .null, node⟩)
    [message] cause

/-- Constructs an error. -/
def newError (spec : ErrorSpec) : Work Value := do
  let message ← evaluate [] spec.message
  let options ← faultOptions spec
  match engineKind? spec.kind, options.given with
  | some kind, _ => newEngineFault kind message (← evaluate [] spec.node) options
  | none, [] => make fun s => s.addFault (.plain (plainKind spec.kind)) [message] .null
  | none, name :: _ => fail (.misfit (plainKind spec.kind).name (.unknown name))

/-- Adds values to the context of an error. -/
def addContextTo (v : Value) (values : Table Value) : Work Datum := do
  let s ← store
  let isEngine := match v with
    | .fault i =>
      match (s.fault i).detail with
      | .engine _ => true
      | _ => false
    | _ => false
  if !isEngine then failLacking v "with_context"
  if values.has "self" then fail (.misfit "with_context" (.repeated "self"))
  withContext v values
  return .obj ((← describeFault v) ++ [("same", .bool true)])

/-- Reports a diagnostic against a file, also if it is raised. -/
def reportOp (how : Reporting) (file reason position : Value) (id : Option String) :
    Work Datum := do
  let isDiagnostic (s : Store) (e : Value) : Bool := match e with
    | .fault i =>
      match (s.fault i).detail with
      | .diagnostic _ => true
      | _ => false
    | _ => false
  let (raised, v) ← match ← attempt (callMethod file how.name [reason, position]) with
    | .ok v => pure (false, v)
    | .error e => do if isDiagnostic (← store) e then pure (true, e) else reraise e
  registerAs id v
  let messages ← attr file "messages"
  return .obj [
    ("raised", .bool raised), ("message", ← seeDiagnostic v), ("count", .int (← size messages))]

/-- The ware of a value: its own, that of a processor, or that of the default of a family. -/
def wareOf (v : Value) : Work Nat := do
  let ware ← match v with
    | .type _ => do attr (← callMethod v "default" []) "ware"
    | .processor _ => attr v "ware"
    | v => pure v
  match ware with
  | .ware i => return i
  | v => failLacking v "fns"

/-- The span that an id stands for. -/
def spanOf (id : String) : Work Nat := do
  match ← registered id with
  | .span i => return i
  | v => failLacking v "fields"

/-- The value of a time that is given. -/
def secondsValue : Option Seconds → Work Value
  | none => pure .null
  | some (.known x) => pure (.float x)
  | some .tooGreat => fail .tooGreat

/-- A timed span as it was asked for. -/
def newTiming (spec : SpanSpec) : Work Nat := do
  let step ← evaluate [] spec.step
  let id ← match spec.spanId with
    | some e => evaluate [] e
    | none => newSpanId
  let parent ← evaluate [] spec.parentId
  let started ← secondsValue spec.startedAt
  let ended ← secondsValue spec.endedAt
  let metrics ← evaluateFields [] spec.metrics
  let error ← registered? spec.error
  let added ← evaluateFields [] spec.added
  let error ← match spec.setError with
    | some id => registered id
    | none => pure error
  let metrics ← newDict (Table.merge metrics added)
  let v ← make fun s => s.addSpan
    ⟨step, id, parent, if started = .null then .float 0 else started, ended, metrics, error, []⟩
  let i := match v with | .span i => i | _ => 0
  if spec.stop then stopSpan i
  if spec.endedAt.isSome then
    let _ ← elementNumber step
    modify fun m => { m with measured := step :: m.measured }
  register spec.id v
  return i

/-- The settings, read once and kept; faults are not kept. -/
def readSettings (defaults : Table (Option String)) : Work (Except SettingsFault Settings) := do
  let m ← machine
  match m.settings with
  | some s => return .ok s
  | none =>
    match Settings.read m.vars defaults with
    | .ok s =>
      modify fun m => { m with settings := some s }
      return .ok s
    | .error e => return .error e

/-- Reads the settings with a text of defaults. Once logging is configured, a line of the text that does not fit is
told of on the stream, unless that takes no warnings. -/
def readDefaults (text : String) : Work (Except SettingsFault Settings) := do
  if Text.hasHalf text then fail .notEncodable
  let m ← machine
  let (defaults, misfits) := Defaults.ofText m.vars text
  if m.logging.configured && m.logging.streamTakes "defaults" .warning then
    modify fun m => { m with lines := List.replicate misfits (.str "console") ++ m.lines }
  readSettings defaults

/-- Sets a variable of the environment to a text, which is kept as bytes. Its name is not empty and holds no sign
of equality, and neither name nor text holds a null character. -/
def setVariable (name : String) (value : Datum) : Work Unit := do
  match value with
  | .str t =>
    match Text.stored? name, Text.stored? t with
    | some name, some t =>
      if name.toList.contains '=' || (name.toList ++ t.toList).contains (Char.ofNat 0) then fail .notVariable
      else if name = "" then fail .namelessVariable
      else modify fun m => { m with vars := m.vars.set name t }
    | _, _ => fail .notEncodable
  | _ => fail (.notText "a variable" "object")

/-- A word that was asked for, or else the one of the settings, in one case. -/
def word (asked : Value) (standard : String) (method : String) (fold : String → String) : Work Value := do
  match ← trueOr asked (.str standard) with
  | .str t => return .str (fold t)
  | v => callMethod v method []

/-- The families of a filter; none if there is no filter. -/
def filtered (asked : Value) (standard : List String) : Work (Option Elements) := do
  let families ← if asked = .null then newList (standard.map .str) else pure asked
  if ← truth families then return some (← elementsOf (← elements families)) else return none

/-- Configures logging as it was asked for, and by the settings where nothing was. -/
def configureBy (settings : Settings) (level format families : Value) : Work Unit := do
  let level ← word level settings.logLevel "upper" Text.upper
  let format ← word format settings.logFormat "lower" Text.lower
  let families ← filtered families settings.debugProcessors
  let format := if format = .str "json" then .data else .console
  match level with
  | .str level =>
    let (result, logging) := (← machine).logging.arrange level format families
    modify fun m => { m with logging := logging }
    match result with
    | .error failure => fail failure
    | .ok () => return ()
  | v =>
    let (_, logging) := (← machine).logging.arrange "" format families
    modify fun m => { m with logging := logging }
    let _ ← elementNumber v
    fail (.lacksKey v.keyText)

/-- Configures logging, unless it is configured and nothing forces it. -/
def configureLogging (level format families : Value) (force : Bool) : Work Datum := do
  if !(← machine).logging.configured || force then
    match ← readSettings [] with
    | .error .unreadable => fail .unreadableSettings
    | .error .tooDeep => fail .tooDeep
    | .error (.invalid _) => fail .invalidSettings
    | .ok settings => configureBy settings level format families
  return seeLogging (← machine).logging

/-- Fails for values that name the object that they are given to. -/
def refuseSelf (callee : String) (values : Table Value) : Work Unit :=
  if values.has "self" then fail (.misfit callee (.repeated "self")) else pure ()

/-- The logging context of some values. -/
def contextOfValues (values : Table Value) : Work LogContext := do
  match LogContext.ofValues? values with
  | some c => return c
  | none => fail (.misfit "LogContext.__init__" (.unknown (strangeName LogContext.fieldNames values)))

/-- Applies one operation of the logging context. -/
def contextOp (action : ContextAction) (values base : Table Value) : Work Datum := do
  let current : Work LogContext := do return (← machine).scope.fields
  let answer : Work Datum := do seeContext (← current)
  let merged (c : LogContext) : Work LogContext := do
    refuseSelf "LogContext.merge" values
    return c.merge values
  match action with
  | .get => answer
  | .set =>
    setScope (← contextOfValues values)
    answer
  | .bind =>
    setScope (← merged (← current))
    answer
  | .clear =>
    setScope .empty
    answer
  | .merge =>
    let c ← contextOfValues base
    let d ← merged c
    return .obj [("base", ← seeContext c), ("merged", ← seeContext d), ("same", .bool false)]
  | .event => return .obj (← seeTable (values.fill (← contextFields)))
  | .push id =>
    let token ← pushScope (← merged (← current))
    registerAs id (.token token)
    answer
  | .restore id =>
    match ← registered id with
    | .token t =>
      restoreScope t
      answer
    | v => failLacking v "restore"

/-- Which events pass a filter. -/
def filterOp (families level : Value) (events : List (Value × Table Value)) : Work Datum := do
  let families ← elementsOf (← elements families)
  let _ ← elementNumber level
  let known : Option Nat := match level with
    | .str name => level? name
    | _ => none
  match known with
  | none => fail (.lacksKey level.keyText)
  | some threshold =>
    let filter : FamilyFilter := ⟨families, threshold⟩
    let context := (← machine).scope.fields.processor
    return .arr (← each (fun e => do
      return .bool (← passesFamily filter ((Table.get? e.2 "processor").getD .null) context e.1)) events)

/-- Runs what an asynchronous method gave for an operation: as a named task inside a loop, else to its
end. -/
def launch (v : Value) (task : Option String) (report : Report) : Work Datum := do
  match v, (← machine).inLoop with
  | .coroutine i, true =>
    let cell ← newCell
    let t ← makeInLoop fun l => l.newTask i cell
    let told ← newCell
    modifyLoop fun l => l.watch t ⟨.told t task report, told⟩
    return .null
  | .coroutine i, false => observeReport report (← serve (.conclude i))
  | v, true => failFor v .notTask
  | v, false => failFor v .notMain

/-- Performs an operation that has no operations inside. -/
def simple (op : Op) : Work Datum := do
  match op with
  | .val id value =>
    register id (← evaluate [] value)
    return .null
  | .show of =>
    match ← registered of with
    | .file i => seeFile i
    | v => seeContent v
  | .get of path => see (← walk (← registered of) path)
  | .set of path value =>
    let v ← registered of
    assignAt v path (← evaluate [] value)
    return .null
  | .append of path value =>
    let v ← walk (← registered of) path
    extend v (← evaluate [] value)
    return .null
  | .same a pathA b pathB =>
    return .bool ((← walk (← registered a) pathA) = (← walk (← registered b) pathB))
  | .isNode value =>
    return .bool (← isNode (← evaluate [] value))
  | .error spec =>
    let e ← newError spec
    register spec.id e
    return .obj (← describeFault e)
  | .describe of => return .obj (← describeFault (← registered of))
  | .withContext of values =>
    let e ← registered of
    addContextTo e (← evaluateFields [] values)
  | .file id options =>
    let options ← match options with
      | some e => evaluate [] e
      | none => pure .null
    let file ← newFile options
    register id file
    seeFile (Store.fileIndex file)
  | .coerce id value =>
    let v ← evaluate [] value
    let file := Value.file (← coerceFile v)
    let same := decide (file = v)
    if !same then registerAs id file
    return .obj [("same", .bool same), ("file", ← seeFile (Store.fileIndex file))]
  | .bag of key => do see (← ask of "namespace" [← evaluate [] key])
  | .setBag of key name value =>
    let key ← evaluate [] key
    let name ← evaluate [] name
    let v ← evaluate [] value
    let bag ← ask of "namespace" [key]
    setItem bag name v
    see bag
  | .hasBag of key => do see (← ask of "has_namespace" [← evaluate [] key])
  | .path of => do see (← ask of "file_path" [])
  | .move of filename directory extension =>
    let file ← registered of
    let filename ← evaluate [] filename
    let directory ← evaluate [] directory
    let extension ← evaluate [] extension
    match file with
    | .file i =>
      modifyStore fun s => s.moveFile i filename directory extension
      return .obj [("same", .bool true), ("path", ← see (← filePath i))]
    | v => failLacking v "move"
  | .failed of => do see (← ask of "has_failed" [])
  | .str of => return .str (← printed (← registered of))
  | .repr of => return .str (← written (← registered of))
  | .report how of reason position id =>
    let file ← registered of
    let reason ← evaluate [] reason
    let position ← evaluate [] position
    reportOp how file reason position id
  | .diagnostic id reason position file fatal =>
    let reason ← evaluate [] reason
    let position ← evaluate [] position
    let file ← evaluate [] file
    let fatal ← match fatal with
      | some e => evaluate [] e
      | none => pure (.bool false)
    let v ← newDiagnostic reason position file fatal
    registerAs id v
    seeDiagnostic v
  | .type id name module bases attrs doc =>
    let bases ← each baseOf bases
    let attrs ← evaluateFields [] attrs
    let module ← evaluate [] module
    let doc ← evaluate [] doc
    let i ← perhaps fun s => s.newType name module doc bases attrs .plain
    introduce i
    register id (.type i)
    seeType i
  | .derive id of =>
    let base ← typeOf of
    let i ← deriveType base
    register id (.type i)
    seeType i
  | .typeInfo of => seeType (← typeOf of)
  | .ware id context attaching =>
    let context ← evaluate [] context
    let attachers ← if attaching then do pure (some (← newList [])) else pure none
    register id (← make fun s => s.addEmptyWare context attachers)
    return .null
  | .use on step args repeated =>
    let receiving ← registered on
    let step ← evaluate [] step
    let args ← evaluateAll [] args
    let results ← each (fun _ => callMethod receiving "use" (step :: args)) (List.range repeated)
    see (results.getLast?.getD .null)
  | .attach on attacher options =>
    let receiving ← registered on
    let attacher ← evaluate [] attacher
    let options ← evaluateAll [] options
    see (← callMethod receiving "attach" (attacher :: options))
  | .steps on => seeSteps (← wareOf (← registered on))
  | .step callee =>
    let v ← evaluate [] callee
    seeStep (← stepOf v)
  | .bail args =>
    let args ← evaluateAll [] args
    let result : Value ← serve (.call (.hook .bail) args [])
    see result
  | .run on args =>
    let receiving ← registered on
    let args ← evaluateAll [] args
    see (← callMethod receiving "run" args)
  | .call of args =>
    let args ← evaluateAll [] args
    match (← machine).environment.get? of with
    | none => return .str "$missing"
    | some f =>
      let result : Value ← serve (.call f args [])
      see result
  | .settle future value error =>
    let i ← manualFuture future
    let v ← match error with
      | some id => registered id
      | none => evaluate [] value
    if (← machine).loop.isDone i then fail .settled
    else if error.isSome && !v.isFault then fail .notError
    else
      modifyLoop fun l => l.settle i (if error.isSome then .error v else .value v)
      return .null
  | .cancel future =>
    let i ← manualFuture future
    return .bool (← makeInLoop fun l => l.cancel i)
  | .parser spec =>
    newWorkerType true spec
    return .null
  | .compiler spec =>
    newWorkerType false spec
    return .null
  | .family id name parser compiler data =>
    let name ← evaluate [] name
    let parser ← evaluate [] parser
    let compiler ← evaluate [] compiler
    let data ← evaluate [] data
    let i ← newFamily name parser compiler data
    register id (.type i)
    let t ← query (·.type i)
    return .obj [
      ("class", .str t.name), ("name", ← see name), ("doc", ← see t.doc), ("parser", ← see parser),
      ("compiler", ← see compiler), ("data", ← see data)]
  | .subfamily id of name attrs =>
    let base ← baseOf of
    let attrs ← evaluateFields [] attrs
    let i ← perhaps fun s => s.newType name (.str "__main__") .null [base] attrs .plain
    introduce i
    register id (.type i)
    return .null
  | .new id of args =>
    let family ← registered of
    let args ← evaluateAll [] args
    let v : Value ← serve (.call family args [])
    registerNew id v
    see v
  | .default id of =>
    let v ← callMethod (← registered of) "default" []
    registerNew id v
    see v
  | .ensure id of args =>
    let family ← registered of
    let args ← evaluateAll [] args
    let v ← callMethod family "ensure" args
    registerNew id v
    see v
  | .create on parser args id =>
    let receiving ← registered on
    let args ← evaluateAll [] args
    let v ← callMethod receiving (if parser then "create_parser" else "create_compiler") args
    registerNew id v
    seeCreated v
  | .stringify on args =>
    let receiving ← registered on
    let args ← evaluateAll [] args
    see (← callMethod receiving "stringify" args)
  | .parse on args id task =>
    let receiving ← registered on
    let args ← evaluateAll [] args
    launch (← callMethod receiving "parse" args) task (.tree id)
  | .process on args fileId task =>
    let receiving ← registered on
    let args ← evaluateAll [] args
    launch (← callMethod receiving "process" args) task (.passage fileId)
  | .context action values base =>
    let values ← evaluateFields [] values
    let base ← evaluateFields [] base
    contextOp action values base
  | .span of => seeSpan (← spanOf of)
  | .timing spec => seeSpan (← newTiming spec)
  | .spanId =>
    let _ ← newSpanId
    return .bool true
  | .emit logger level event values =>
    let level ← evaluate [] level
    let event ← evaluate [] event
    logAfresh logger level event (← evaluateFields [] values)
    return .null
  | .filter families level events =>
    let families ← evaluate [] families
    let level ← evaluate [] level
    let events ← each (fun e => do return (← evaluate [] e.1, ← evaluateFields [] e.2)) events
    filterOp families level events
  | .env vars reset dotenv =>
    let _ ← each (fun e => setVariable e.1 e.2) vars
    if reset || dotenv.isSome then modify fun m => { m with settings := none }
    match dotenv with
    | none => return .null
    | some lines => do return seeSettings (← readDefaults (Defaults.textOf lines))
  | .settings => return seeSettings (← readSettings [])
  | .configure level format families force =>
    let given (e : Option Expr) : Work Value := evaluate [] (e.getD .null)
    let level ← given level
    let format ← given format
    let families ← given families
    configureLogging level format families force
  | .configured => return .bool (← machine).logging.configured
  | .scoped .. | .logStep .. | .timed .. => return .null

/-- The result of an operation that gave an answer or raised an error. -/
def resultOf (result : Except Value Datum) : Work (List (String × Datum)) := do
  match result with
  | .ok d => return [("ok", d)]
  | .error e => seeFaultFields e

/-- Performs an operation and takes the events that happened meanwhile. -/
def observed (w : Work Datum) : Work (List (String × Datum)) := do
  let outer ← inspect (·.events)
  modify fun m => { m with events := [] }
  let fields ← resultOf (← attempt w)
  let events := (← inspect (·.events)).reverse
  modify fun m => { m with events := outer }
  return fields ++ if events.isEmpty then [] else [("events", .arr events)]

/-- Takes the log entries and the lines of the log stream since the last operation ended. -/
def takeLogs (shown : Bool) : Work (List (String × Datum)) := do
  let m ← machine
  modify fun m => { m with logs := [], lines := [] }
  return (if shown then [("logs", .arr m.logs.reverse)] else []) ++
    (if m.lines.isEmpty then [] else [("lines", .arr m.lines.reverse)])

/-- Raises the error of an id, if there is one. -/
def raiseNamed (id : Option String) : Work Unit := do
  match id with
  | some id => raiseValue (← registered id)
  | none => return ()

mutual
/-- Performs an operation. -/
def perform (logs : Bool) : Op → Work Datum
  | .scoped values ops raised => do
    let values ← evaluateFields [] values
    refuseSelf "LogContext.merge" values
    withinScope values do
      let scope := (← machine).scope
      let context ← seeContext scope.fields
      let inner ← performAll logs ops
      let current := decide ((← machine).scope.stamp = scope.stamp)
      raiseNamed raised
      return .obj [("ctx", context), ("current", .bool current), ("inner", .arr inner)]
  | .logStep event logStart level values metrics ops raised id => do
    let values ← evaluateFields [] values
    let metrics ← evaluateFields [] metrics
    let level ← match level with
      | some e => do pure (some (← evaluate [] e))
      | none => pure none
    let event ← evaluate [] event
    let asked := ["event"] ++ (logStart.map fun _ => "log_start").toList ++ (level.map fun _ => "level").toList
    match asked.find? (Table.has values) with
    | some name => fail (.misfit "log_step" (.repeated name))
    | none => pure ()
    let start ← match Table.get? values "log_start" with
      | some v => pure v
      | none => pure (.bool (logStart.getD true))
    let level := (level.or (Table.get? values "level")).getD (.str "info")
    let rest := values.filter fun e => e.1 ≠ "log_start" && e.1 ≠ "level"
    let step ← openStep event start level rest
    let (context, inner) ← closeStep step (← attempt do
      registerAs id (.span step.span)
      let bag := ((← store).span step.span).metrics
      let _ ← each (fun e => setItem bag (.str e.1) e.2) metrics
      let context ← seeContext (← machine).scope.fields
      let inner ← performAll logs ops
      raiseNamed raised
      return (context, inner))
    return .obj [("ctx", context), ("inner", .arr inner), ("span", ← seeSpan step.span)]
  | .timed step ops raised id => do
    let i ← newSpan (← evaluate [] (step.getD (.str "unnamed"))) []
    let result ← attempt do
      registerAs id (.span i)
      let inner ← performAll logs ops
      raiseNamed raised
      return inner
    stopSpan i
    let inner ← release result
    return .obj [("inner", .arr inner), ("span", ← seeSpan i)]
  | op => simple op

/-- Performs operations inside an operation, one after the other. -/
def performAll (logs : Bool) : List Op → Work (List Datum)
  | [] => pure []
  | op :: rest => do
    let fields ← observed (perform logs op)
    let fields := fields ++ (← takeLogs logs)
    let results ← performAll logs rest
    return .obj fields :: results
end

/-- Performs the operations of a script. Inside a loop everything that is ready is run after each. -/
def performScript (logs inLoop : Bool) : List Op → Work (List (List (String × Datum)))
  | [] => pure []
  | op :: rest => do
    let fields ← observed (perform logs op)
    let late ← if inLoop then
        drain rounds
        let late := (← machine).events.reverse
        modify fun m => { m with events := [] }
        pure late
      else pure []
    let fields := fields ++ if late.isEmpty then [] else [("late", .arr late)]
    let fields := fields ++ (← takeLogs logs)
    let results ← performScript logs inLoop rest
    return fields :: results

/-- Adds events to the late ones of the last result, if it has any. -/
def addLate (events : List Datum) (fields : List (String × Datum)) : List (String × Datum) :=
  fields.map fun e =>
    match e with
    | ("late", .arr late) => ("late", .arr (late ++ events))
    | e => e

/-- Runs a script. When a script in a loop ends, the loop is closed, with nobody left to be told of
errors; what happens then still counts for the last operation, if anything did after it. -/
def runScript (script : Script) : Work Datum := do
  if script.loop then
    modifyLoop fun l => { l with running := true }
  let results ← performScript script.logs script.loop script.ops
  if script.loop then
    modify fun m => { m with inLoop := false }
    closeLoop 0
    let events := (← machine).events.reverse
    let results := match results.getLast? with
      | some last => results.dropLast ++ [addLate events last]
      | none => results
    return .arr (results.map .obj)
  else return .arr (results.map .obj)

end Treeworks.Work
