import Treeworks.Schedule

/-! Calls of every kind of callable and method, attachers, and the service that ties requests together. -/
namespace Treeworks

namespace Work

/-- The value that a parameter holds in a call. -/
def boundValue : Bound Value → Work Value
  | .one v => pure v
  | .many vs => newTuple vs
  | .named t => newDict t
  | .default => pure .null

/-- Calls a function of a script: its arguments have to fit, the call is recorded, and its body is
run now or, for an asynchronous one, when awaited. -/
def callScript (name : String) (signature : Signature) (asynchronous quiet : Bool)
    (body : List Act) (args : List Value) (keywords : Table Value) : Work Value := do
  match signature.bind args keywords with
  | .error misfit => fail (.misfit name misfit)
  | .ok bound =>
    let locals ← each (fun e => do return (e.1, ← boundValue e.2)) bound
    if asynchronous then
      newCoroutine (.call name quiet locals body)
    else
      if !quiet then recordCall name locals
      return (← actAll locals body).getD .null

/-- Calls a completion callback of a script. -/
def callCallback (name : String) (body : List Act) (args : List Value) : Work Value := do
  record (.obj [("done", .str name), ("args", .arr (← each see args))])
  let locals : Table Value := [("args", ← newList args)]
  return (← actAll locals body).getD .null

/-- Parses a passage, unless it has a tree or its file has one parked. -/
def parseStage (c : Nat) : Work Value := do
  let p ← passage c
  if p.tree = .null then
    let found := p.look (← slotTree p.file (← attr p.processor "name"))
    updatePassage c fun p => { p with tree := found.tree }
    if found.tree = .null then newCoroutine (.parsePassage c) else return .null
  else return .null

/-- Compiles a passage; an awaitable result is awaited. -/
def compileStage (c : Nat) : Work Value := do
  let p ← passage c
  let result ← callMethod p.processor "stringify" [p.tree, p.file, p.settings]
  if ← isAwaitable result then newCoroutine (.settlePassage c result)
  else
    updatePassage c fun p => { p with result := result }
    return .null

/-- Ends a passage with an error or its result, unless it has ended. -/
def finishPassage (c future : Nat) (error : Value) : Work Value := do
  if ← inspect (·.loop.isDone future) then return .null
  match Passage.ending? c error with
  | some ending =>
    modifyLoop fun l => l.settle future ending
    return .null
  | none => fail .notError

/-- Calls one of the library's own functions. -/
def callHook (h : Hook) (args : List Value) (keywords : Table Value) : Work Value := do
  let name ← query (·.functionName (.hook h))
  let given ← boundArguments name (Store.hookSignature h) args keywords
  match h, given with
  | .bail, error :: _ => if error = .null then return .null else raiseValue error
  | .parseStage, [.passage c] => parseStage c
  | .runStage, [.passage c, next] =>
    let p ← passage c
    let _ ← callMethod p.processor "run" [p.tree, p.file, next]
    return .null
  | .compileStage, [.passage c] => compileStage c
  | .finish c future, error :: _ => finishPassage c future error
  | _, given => failLacking (given.headD .null) "tree"

/-- Calls an instance by what its class offers for that. -/
def callInstance (v : Value) (args : List Value) (keywords : Table Value) : Work Value := do
  match ← special? v "__call__" with
  | some (f, leading) => serve (.call f (leading ++ args) keywords)
  | none => failFor v .notCallable

/-- The arguments that a dictionary fixes by keyword, with others that win; their names have to be texts. -/
def withFixed (fixed : Value) (keywords : Table Value) : Work (Table Value) := do
  return Table.merge (← fieldsOf ((← query (·.mapping? fixed)).getD [])) keywords

/-- Calls a value with arguments, some of them by keyword. -/
def call (callee : Value) (args : List Value) (keywords : Table Value) : Work Value := do
  match callee with
  | .function i => do
    match ← query (·.function i) with
    | .script name signature _ asynchronous quiet body =>
      callScript name signature asynchronous quiet body args keywords
    | .callback name body => callCallback name body args
    | .fixed target leading fixed =>
      let leading := (← query (·.elements? leading)).getD []
      serve (.call target (leading ++ args) (← withFixed fixed keywords))
    | .bound _ (.value f leading) => serve (.call f (leading ++ args) keywords)
    | .bound label method =>
      match keywords with
      | [] => serve (.invoke method args)
      | e :: _ => fail (.misfit label (.unknown e.1))
  | .type i => instantiate i args keywords
  | .worker _ | .processor _ => callInstance callee args keywords
  | .hook h => callHook h args keywords
  | .next ticket =>
    let given ← boundArguments "_Continuation.__call__" (.ofTokens ["self", "error=", "*rest"]) (callee :: args) keywords
    callNext ticket (given.getD 1 .null)
    return .null
  | v => failFor v .notCallable

/-- Attaches the items of a list, also those that are added on the way. -/
def attachItems (ware : Nat) (options : List Value) (v : Value) : Nat → Nat → Work Unit
  | 0, _ => exhausted
  | fuel + 1, i => do
    match (← query (·.elements? v)).bind (·[i]?) with
    | none => return ()
    | some item =>
      serve (.attach ware item options)
      attachItems ware options v fuel (i + 1)

/-- Attaches the elements of a set or the keys of a mapping, which may not grow on the way. -/
def attachElements (ware : Nat) (options : List Value) (v : Value) (size : Nat) :
    List Value → Work Unit
  | [] => return ()
  | item :: rest => do
    serve (.attach ware item options)
    if (← query (·.length? v)) = some size then attachElements ware options v size rest
    else fail .changed

/-- Going through a future gives nothing; it has to have ended, and not with an error. -/
def attachFuture (i : Nat) : Work Unit := do
  if !(← inspect (·.loop.isDone i)) then fail .notAwaited
  let _ ← release (← futureResult (← inspect (·.loop.future i)))
  return ()

/-- Attaches what an iterator still gives. -/
def attachRemaining (ware : Nat) (options : List Value) (m : Value × List Value) : Nat → Work Unit
  | 0 => exhausted
  | fuel + 1 => do
    serve (.attach ware (← callSpecial m []) options)
    attachRemaining ware options m fuel

/-- Attaches the items of a value from an index on, up to the first that is not there. -/
def attachFrom (ware : Nat) (options : List Value) (m : Value × List Value) (i : Nat) : Nat → Work Unit
  | 0 => exhausted
  | fuel + 1 => do
    match ← orNone [.index] (callSpecial m [.int i]) with
    | some v =>
      serve (.attach ware v options)
      attachFrom ware options m (i + 1) fuel
    | none => return ()

/-- Attaches what a value gives by its own methods. -/
def attachBy (ware : Nat) (options : List Value) (v : Value) : Work Unit := do
  match ← special? v "__iter__" with
  | some m =>
    let iterator ← callSpecial m []
    match ← special? iterator "__next__" with
    | some m => attachRemaining ware options m rounds
    | none => failFor iterator .notIterable
  | none =>
    match ← special? v "__getitem__" with
    | some m => attachFrom ware options m 0 rounds
    | none => failFor v .notIterable

/-- Applies an attacher to the context of a ware and registers the step that it gives; or applies
every attacher of a collection. -/
def attach (ware : Nat) (attacher : Value) (options : List Value) : Work Unit := do
  if ← isCallable attacher then
    let context ← attr (.ware ware) "context"
    let step : Value ← serve (.call attacher ((if context = .null then .ware ware else context) :: options) [])
    append (← attr (.ware ware) "attachers") attacher
    if step ≠ .null then
      let _ ← callMethod (.ware ware) "use" [step]
      return ()
  else
    match attacher, ← query (·.elements? attacher) with
    | .future i, _ => attachFuture i
    | .list _, some items => attachItems ware options attacher (items.length + rounds) 0
    | _, some items => attachElements ware options attacher items.length items
    | _, none => attachBy ware options attacher

/-- Calls a method of a ware, which gives the ware. -/
def wareMethod (ware : Nat) (name : String) (args : List Value) : Work Value := do
  if name = "run" then runWare ware args
  else
    match args with
    | [] => fail (.misfit ("Ware." ++ name) default)
    | first :: rest => if name = "use" then useStep ware first rest else serve (.attach ware first rest)
  return .ware ware

/-- Calls a method that a class is born with. -/
def inbornMethod (type : Nat) (name : String) (receiver : Value) (args : List Value) :
    Work Value := do
  match (← query (·.type type)).role, receiver, args with
  | .family, receiver, args =>
    if name = "__repr__" then return .str (← written receiver) else familyMethod name receiver args
  | .worker .., .type _, [worker] => doWork worker type
  | .worker .., .type _, args => fail (.excess name 1 1 args.length)
  | .worker .., worker, [] => doWork worker type
  | .worker .., _, args => fail (.excess name 1 1 (args.length + 1))
  | .plain, receiver, _ => failLacking receiver name

/-- Calls a method. -/
def invoke (method : Method) (args : List Value) : Work Value := do
  match method with
  | .value callee leading => serve (.call callee (leading ++ args) [])
  | .inborn type name receiver => inbornMethod type name receiver args
  | .ware ware name => wareMethod ware name args
  | .file file name => fileMethod file name args
  | .mapping context =>
    if args.isEmpty then contextMapping (.context context)
    else fail (.excess "ErrorContext.to_dict" 1 1 (args.length + 1))

end Work

/-- Does one request; the requests below it go to the service of the work. -/
def Request.handle : (r : Request) → Work r.Reply
  | .call callee args keywords => Work.call callee args keywords
  | .invoke method args => Work.invoke method args
  | .resume coroutine error => Work.resumeCoroutine coroutine error
  | .attach ware attacher options => Work.attach ware attacher options
  | .conclude coroutine => Work.conclude coroutine

/-- The service that answers no request. -/
def Service.idle : Service := fun _ m => (.spent, m)

/-- The service for a nesting of requests; below it every request fails. -/
def service : Nat → Service
  | 0 => fun r => (Work.fail .tooDeep : Work r.Reply) .idle
  | depth + 1 => fun r => r.handle (service depth)

/-- The nesting that scripts may use. -/
def nesting : Nat := 900

end Treeworks
