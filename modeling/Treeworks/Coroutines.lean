import Treeworks.Construction

/-! Coroutines: what each does when it goes on, and how it waits for others. -/
namespace Treeworks

/-- What a coroutine does next. -/
inductive Advance
  | finish (value : Value)
  | await (awaited : Value) (next : Stage)
  | turn (next : Stage)
  | go (next : Stage)

namespace Work

/-- Changes a coroutine. -/
def updateCoroutine (i : Nat) (f : Coroutine → Coroutine) : Work Unit :=
  modify fun m => { m with coroutines := m.coroutines.modify i f }

/-- A new error of a cancellation. -/
def cancellation : Work Value := make fun s => s.addFault (.plain .cancelled) [] .null

/-- Whether an error is a cancellation. -/
def isCancellation (e : Value) : Work Bool := do
  match e with
  | .fault i =>
    match (← query (·.fault i)).detail with
    | .plain .cancelled => return true
    | _ => return false
  | _ => return false

/-- How a future that has ended appears to one who awaits it. -/
def futureResult (f : Future) : Work (Except Value Value) := do
  match f.ending with
  | some (.value v) => return .ok v
  | some (.error e) =>
    modifyStore fun s => s.noteRaised e .null
    return .error e
  | _ => return .error (← cancellation)

/-- Changes a passage. -/
def updatePassage (c : Nat) (f : Passage → Passage) : Work Unit :=
  modifyStore fun s => { s with passages := s.passages.modify c f }

/-- The passage at a place. -/
def passage (c : Nat) : Work Passage := do return (← store).passages.getD c default

/-- Ends parsing: the step is closed and the tree parked, in place of any other. -/
def finishParse (p : Value) (file : Nat) (step : OpenStep) (arrived : Except Value Value) : Work Advance := do
  let tree ← closeStep step arrived
  setItem (← bagOf file (← attr p "name")) (.str "tree") tree
  return .finish tree

/-- Begins to parse text or a file. -/
def beginParse (p value settings : Value) : Work Advance := do
  let file ← coerceFile value
  let step ← openStep (.str "processor.parse") (.bool true) (.str "info")
    [("processor", ← attr p "name"), ("stage", .str "parse"), ("file_path", ← filePath? file)]
  let parsed ← attempt do
    callMethod (← callMethod p "create_parser" [.file file, settings]) "parse" []
  match parsed with
  | .ok tree =>
    if ← isAwaitable tree then return .await tree (.parsed p file step) else finishParse p file step (.ok tree)
  | .error e => closeStep step (.error e)

/-- Begins a passage. A value that is no file has a new one. -/
def beginProcess (p value settings : Value) : Work Advance := do
  let settings ← if ← truth settings then pure settings else newDict []
  let file ← if value.isFile then pure value else newFile (if value.isText then value else .null)
  let started := Passage.ofValue p settings value file
  let c ← make fun s => (s.passages.size, { s with passages := s.passages.push started })
  let finished ← makeInLoop Loop.newFuture
  let step ← openStep (.str "pipeline.process") (.bool true) (.str "info")
    [("processor", ← attr p "name"), ("stage", .str "process"),
      ("file_path", ← filePath? (Store.fileIndex file)), ("parsed", .bool (started.tree ≠ .null))]
  match ← attempt (runWare 0 [.passage c, .hook (.finish c finished)]) with
  | .ok _ => return .await (.future finished) (.processed c step)
  | .error e => closeStep step (.error e)

/-- What is told of a result: a tree or passage that ends under an id is registered and shown. -/
def observeReport (report : Report) (v : Value) : Work Datum := do
  match report with
  | .tree none => see v
  | .tree (some id) =>
    if v.isScalar || (← isRegistered v) then see v
    else
      register id v
      seeContent v
  | .passage fileId =>
    let p ← passage (match v with | .passage c => c | _ => 0)
    let registered ← isRegistered p.file
    let file ← match fileId, p.file with
      | some id, .file i =>
        if registered then see p.file
        else
          register id p.file
          seeFile i
      | _, file => see file
    return .obj [("file", file), ("result", ← see p.result)]

/-- Records the event of a task that has ended, which may have a name; of a cancellation no more is told. -/
def recordEnd (task : Nat) (name : Option String) (report : Report) : Work Unit := do
  let fields ← match (← inspect (·.loop.future task)).ending with
    | some (.value v) => do pure [("ok", ← observeReport report v)]
    | some (.error e) => seeFaultFields e
    | _ => pure [("error", .str PlainKind.cancelled.name), ("message", .null)]
  record (.obj (("task", (name.map Datum.str).getD .null) :: fields))

/-- Records the call of a function with the values of its parameters. -/
def recordCall (name : String) (locals : Table Value) : Work Unit := do
  record (.obj [("call", .str name), ("args", .obj (← seeTable locals))])

/-- What an object gives that its class says can be awaited. -/
def awaitBy (v : Value) : Work Value := do
  match ← special? v "__await__" with
  | some m => callSpecial m []
  | none => failFor v .notAwaitable

/-- The value that is drawn next from a collection or an iterator, if there is one. -/
def drawNext? (source : Value) (index : Nat) : Work (Option Value) := do
  match (← store).elements? source, ← special? source "__next__" with
  | some vs, _ => return vs[index]?
  | none, some m => return some (← callSpecial m [])
  | none, none => failFor source .notIterable

/-- What gives the values of something that a task takes over: a collection, or the iterator of an object. -/
def sourceOf (v : Value) : Work Value := do
  match (← store).elements? v, ← special? v "__iter__" with
  | some _, _ => return v
  | none, some m =>
    let iterator ← callSpecial m []
    if (← special? iterator "__next__").isSome then return iterator else failFor iterator .notIterable
  | none, none => failFor v .notIterable

/-- What a stage does when it goes on with a result. -/
def advance (stage : Stage) (arrived : Except Value Value) : Work Advance := do
  match stage with
  | .acts locals rest otherwise =>
    let _ ← release arrived
    match rest with
    | [] =>
      match otherwise with
      | .null => return .finish .null
      | .produce w type => return .finish (← produce w type)
    | .wait id :: rest => return .await (.future (← manualFuture id)) (.acts locals rest otherwise)
    | .sleep n :: rest => return .go (.sleep n locals rest otherwise)
    | a :: rest =>
      match ← act locals a with
      | some v => return .finish v
      | none => return .go (.acts locals rest otherwise)
  | .sleep n locals rest otherwise =>
    let _ ← release arrived
    match n with
    | 0 => return .go (.acts locals rest otherwise)
    | n + 1 => return .turn (.sleep n locals rest otherwise)
  | .call name quiet locals body =>
    let _ ← release arrived
    if !quiet then recordCall name locals
    return .go (.acts locals body .null)
  | .work w type =>
    let _ ← release arrived
    match (← query (·.type type)).role with
    | .worker parses spec =>
      recordWork parses spec
      return .go (.acts (← workerLocals w) spec.acts (.produce w type))
    | _ => return .finish .null
  | .parse p value settings =>
    let _ ← release arrived
    beginParse p value settings
  | .parsed p file step => finishParse p file step arrived
  | .process p value settings =>
    let _ ← release arrived
    beginProcess p value settings
  | .processed c step =>
    let _ ← closeStep step arrived
    return .finish (.passage c)
  | .parsePassage c =>
    let _ ← release arrived
    let p ← passage c
    return .await (← callMethod p.processor "parse" [p.file, p.settings]) (.parsedPassage c)
  | .parsedPassage c =>
    let tree ← release arrived
    updatePassage c fun p => { p with tree := tree }
    return .finish .null
  | .settlePassage c awaitable =>
    let _ ← release arrived
    return .await awaitable (.settledPassage c)
  | .settledPassage c =>
    let result ← release arrived
    updatePassage c fun p => { p with result := result }
    return .finish .null
  | .resolve awaitable =>
    let _ ← release arrived
    return .await awaitable .resolved
  | .adopt awaitable =>
    let _ ← release arrived
    match ← awaitBy awaitable with
    | .coroutine i => return .await (.coroutine i) .resolved
    | .future i => return .await (.future i) .resolved
    | v => return .go (.draw (← sourceOf v) 0 .resolved)
  | .resolved => return .finish (← release arrived)
  | .draw source index next =>
    match ← attempt (do let _ ← release arrived; drawNext? source index) with
    | .error e => advance next (.error e)
    | .ok none => advance next (.ok .null)
    | .ok (some .null) => return .turn (.draw source (index + 1) next)
    | .ok (some _) => return .turn (.drawn next)
  | .drawn next => do
    match ← attempt (do let _ ← release arrived; fail .notDrawable) with
    | .error e => advance next (.error e)
    | .ok () => return .finish .null

/-- Leaves a coroutine where it stands. -/
def suspend (i : Nat) (stage : Stage) (inner : Option Value) : Work Unit :=
  updateCoroutine i fun _ => ⟨stage, .suspended, inner⟩

/-- Marks a coroutine as ended. -/
def endCoroutine (i : Nat) : Work Unit :=
  updateCoroutine i fun c => { c with progress := .ended, inner := none }

/-- Lets a coroutine that is awaited go on, if it may be. -/
def resumeInner (j : Nat) (fresh : Bool) (error : Option Value) :
    Work (Except Value Pause) := do
  if fresh && (← inspect (·.coroutine j)).progress = .suspended then
    attempt (fail .beingAwaited)
  else attempt (serve (.resume j error))

/-- The iterator of an object that can be awaited by what its class says. -/
def iteratorBy (v : Value) : Work Value := do
  let iterator ← awaitBy v
  if (← special? iterator "__next__").isSome then return iterator else failFor iterator .notIterable

mutual
/-- Goes on with a coroutine from a stage until it pauses or ends. -/
def goOn : Nat → Nat → Stage → Except Value Value → Work Pause
  | 0, _, _, _ => exhausted
  | fuel + 1, i, stage, arrived => do
    match ← attempt (advance stage arrived) with
    | .error e =>
      endCoroutine i
      reraise e
    | .ok (.finish v) =>
      endCoroutine i
      return .ended v
    | .ok (.turn next) =>
      suspend i next none
      return .turn
    | .ok (.go next) => goOn fuel i next (.ok .null)
    | .ok (.await awaited next) =>
      match awaited with
      | .future f =>
        let future ← inspect (·.loop.future f)
        if future.ending.isSome then goOn fuel i next (← futureResult future)
        else
          suspend i next (some awaited)
          return .waits f
      | .coroutine j => goInto fuel i j true none next
      | .awaitable j => goInto fuel i j false none next
      | v =>
        match ← attempt (iteratorBy v) with
        | .ok iterator => goOn fuel i (.draw iterator 0 next) (.ok .null)
        | .error e => goOn fuel i next (.error e)

/-- Goes on with the coroutine that another awaits, and with the other when it has ended. -/
def goInto : Nat → Nat → Nat → Bool → Option Value → Stage → Work Pause
  | 0, _, _, _, _, _ => exhausted
  | fuel + 1, i, j, fresh, error, next => do
    match ← resumeInner j fresh error with
    | .error e => goOn fuel i next (.error e)
    | .ok (.ended v) => goOn fuel i next (.ok v)
    | .ok pause =>
      suspend i next (some (.coroutine j))
      return pause
end

/-- Resumes a coroutine, with an error raised where it stands or without. -/
def resumeCoroutine (i : Nat) (error : Option Value) : Work Pause := do
  let c ← inspect (·.coroutine i)
  let arrived : Except Value Value := match error with
    | some e => .error e
    | none => .ok .null
  match c.progress with
  | .ended => fail .alreadyAwaited
  | .running => fail .alreadyRunning
  | .fresh =>
    updateCoroutine i fun c => { c with progress := .running }
    match error with
    | some e =>
      endCoroutine i
      reraise e
    | none => goOn rounds i c.stage arrived
  | .suspended =>
    updateCoroutine i fun c => { c with progress := .running }
    match c.inner, error with
    | some (.future f), none =>
      let future ← inspect (·.loop.future f)
      if future.ending.isSome then goOn rounds i c.stage (← futureResult future)
      else
        suspend i c.stage c.inner
        return .waits f
    | some (.coroutine j), error => goInto rounds i j false error c.stage
    | _, _ => goOn rounds i c.stage arrived

end Work
end Treeworks
