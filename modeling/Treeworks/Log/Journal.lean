import Treeworks.Log.Line

/-! Log entries, the logging context of the current line of control, and timed steps. -/
namespace Treeworks.Work

/-- The names of the parts of an object that is known by them. -/
def partNames : Value → Option (List String)
  | .point _ => some ["line", "column"]
  | .context _ => some ["processor", "stage", "file_path", "metadata"]
  | .ware _ => some ["context", "fns", "_pending"]
  | .step .. => some ["fn", "name", "required", "accepted", "wants_context"]
  | .span _ => some ["step", "span_id", "parent_span_id", "started_at", "ended_at", "metrics", "error"]
  | _ => none

/-- A value of the logging context as an entry takes it over: lists, tuples and dictionaries anew,
objects that are known by their parts as dictionaries of them, all else copied. -/
def takenOver : Nat → Value → Work Value
  | 0, _ => fail .tooDeep
  | fuel + 1, v => do
    let s ← store
    match v, partNames v with
    | v, some names =>
      newDict (← each (fun name => do return (name, ← takenOver fuel (← attr v name))) names)
    | .list i, none => do newList (← each (takenOver fuel) (s.list i))
    | .tuple i, none => do newTuple (← each (takenOver fuel) (s.tuple i))
    | .dict i, none =>
      let entries ← each (fun e => do return (← takenOver fuel e.1, ← takenOver fuel e.2)) (s.dict i)
      make fun s => s.addDict entries
    | v, none => if v.isScalar then return v else deepCopy v

/-- The fields that every entry takes over from the current logging context. -/
def contextFields : Work (Table Value) := do
  each (fun e => do return (e.1, ← takenOver seenDepth e.2)) (← machine).scope.fields.entries

/-- The data of an entry that is recorded as it is. -/
def entryFields (fields : Table Value) : Work (List (String × Datum)) := fieldData see fields

/-- Records an entry as it is. -/
def recordEntry (logger : String) (method : LogMethod) (event : Value) (fields : Table Value) : Work Unit := do
  let fields := if method = .exception && !fields.has "exc_info" then fields.set "exc_info" (.bool true) else fields
  let fields := fields.fill (← contextFields)
  let fields := if fields.has "logger" then fields else fields.set "logger" (.str logger)
  let shown ← entryFields fields
  let head : Table Datum := [("event", ← see event), ("level", .str method.shown)]
  modify fun m => { m with logs := .obj (Table.merge shown head) :: m.logs }

/-- The fields that the stream gives to every entry itself. -/
def streamNames : List String := ["timestamp", "level", "logger"]

/-- The fields of an entry as they are written to the stream: an error that it was given is reported
in place of being one of them. -/
def streamFields (fields : Table Value) : Work (Table Value) := do
  let own : Table Value := fields.filter fun e => !streamNames.contains e.1
  let all := own.fill (← contextFields)
  let rest : Table Value := all.filter fun e => e.1 ≠ "exc_info" && e.1 ≠ "stack_info"
  match all.get? "exc_info" with
  | some (.fault i) => return rest.set "exception" (.str (← errorReport i [] (← store).faults.size))
  | _ => return rest

/-- What a text is followed by when an exception is reported below it without one. -/
def withoutException (text : String) : String :=
  text ++ (if text.endsWith "\n" then "" else "\n") ++ "NoneType: None"

/-- The lines that an entry is written as. Below an exception stands a line of its own. -/
def linesOf (format : LogFormat) (logger : String) (method : LogMethod) (event : Value) (fields : Table Value) :
    Work (List Datum) := do
  let fields ← streamFields fields
  match format with
  | .console =>
    let text ← consoleEntry (← printed event) logger fields
    let text := if method = .exception then withoutException text else text
    return List.replicate (Text.breaks (text ++ "\n").toList) (.str "console")
  | .data =>
    let event : Table Datum ← if event = .null then pure [] else do
      pure [("event", ← lineDatum seenDepth [] event)]
    let head : Table Datum := event ++ [("level", .str method.shown), ("logger", .str logger)]
    let entry := Datum.obj (Table.merge (← lineData fields) head)
    return if method = .exception then [entry, .str "console"] else [entry]

/-- Whether an event passes a filter by family: its family, or else that of the context, is listed, or the level
that the method's name stands for reaches the threshold. -/
def passesFamily (f : FamilyFilter) (own context method : Value) : Work Bool := do
  if ← contains f.families (← trueOr own context) then return true
  else
    match method with
    | .str name => return f.threshold ≤ methodLevel name
    | v =>
      match ← callMethod v "upper" [] with
      | .str name => return f.threshold ≤ (level? name).getD 10
      | w =>
        let _ ← elementNumber w
        return f.threshold ≤ 10

/-- Whether an event passes the filter of a chain. -/
def passes (chain : Chain) (logger : String) (method : LogMethod) (own : Value) : Work Bool := do
  let m ← machine
  match chain.filter with
  | some f => passesFamily f own m.scope.fields.processor (.str method.name)
  | none => return m.logging.streamTakes logger method

/-- Writes an entry to the stream, if the chain lets it pass and the stream takes it. -/
def stream (chain : Chain) (logger : String) (method : LogMethod) (event : Value) (fields : Table Value) :
    Work Unit := do
  if ← passes chain logger method ((fields.get? "processor").getD .null) then
    let logger := if logger = "" then "root" else logger
    let lines ← linesOf chain.format logger method event fields
    let m ← machine
    if m.logging.configured && m.logging.streamTakes logger method then
      modify fun m => { m with lines := lines.reverse ++ m.lines }

/-- Fails for fields of an entry that have the name of something else. -/
def checkFields (callee : String) (fields : Table Value) : Work Unit :=
  match ["event", "self", "method_name"].find? fields.has with
  | some name => fail (.misfit callee (.repeated name))
  | none => return ()

/-- Writes an entry through a chain, or records it as it is when there is none. -/
def write (chain : Option Chain) (logger : String) (method : LogMethod) (event : Value) (fields : Table Value) :
    Work Unit := do
  checkFields method.name fields
  match chain with
  | none => recordEntry logger method event fields
  | some chain => stream chain logger method event fields

/-- Writes an entry of a logger that keeps the chain it was first used with. -/
def log (logger : String) (method : LogMethod) (event : String) (fields : Table Value) : Work Unit := do
  let m ← machine
  let (chain, logging) := m.logging.chainOf logger
  modify fun m => { m with logging := logging }
  write chain logger method (.str event) fields

/-- What a logger under a chain has under a name. -/
def loggerPart (chain : Option Chain) (name : Value) : Work LoggerPart := do
  match name with
  | .str t =>
    match LoggerPart.ofName? chain.isSome t with
    | some part => return part
    | none => fail (.lacksAttribute "logger" t)
  | v => failFor v (.notText "attribute name")

/-- Has a part of a logger do with an event and fields what it does. -/
def usePart (part : LoggerPart) (chain : Option Chain) (logger : String) (event : Value) (fields : Table Value) :
    Work Unit := do
  match part, fields with
  | .method method, fields => write chain logger method event fields
  | .deferred, fields => checkFields logger fields
  | .bare none, [] => return ()
  | .bare (some failure), [] => fail failure
  | .bare _, e :: _ => fail (.misfit logger (.unknown e.1))
  | .misused, _ => failFor event .notCallable

/-- Writes an entry of a logger that is new. -/
def logAfresh (logger : String) (level event : Value) (fields : Table Value) : Work Unit := do
  let chain := (← machine).logging.chain
  usePart (← loggerPart chain level) chain logger event fields

/-- Replaces the current logging context. -/
def setScope (fields : LogContext) : Work Unit :=
  modify fun m => { m with
    stamps := m.stamps + 1
    cells := m.cells.set! m.cell ⟨m.stamps + 1, fields⟩ }

/-- Replaces the current logging context, and gives the right to bring it back. -/
def pushScope (fields : LogContext) : Work Nat := do
  let m ← machine
  let i := m.store.tokens.size
  modifyStore fun s => { s with tokens := s.tokens.push ⟨m.cell, m.scope, false⟩ }
  setScope fields
  return i

/-- Brings back the context that a token stands for: once, and only where it was replaced. -/
def restoreScope (token : Nat) : Work Unit := do
  let m ← machine
  let t := m.store.tokens.getD token default
  if t.used then fail .usedToken
  else if t.cell ≠ m.cell then fail .foreignToken
  else
    modify fun m => { m with
      cells := m.cells.set! m.cell t.previous
      store := { m.store with tokens := m.store.tokens.modify token fun t => { t with used := true } } }

/-- A new line of control sees a copy of the current logging context. -/
def newCell : Work Nat := fun _ m => (.done m.cells.size, { m with cells := m.cells.push m.scope })

/-- A new span id. -/
def newSpanId : Work Value := fun _ m => (.done (.spanId m.spanIds), { m with spanIds := m.spanIds + 1 })

/-- A new span below the current one. -/
def newSpan (step : Value) (metrics : Table Value) : Work Nat := do
  let id ← newSpanId
  let m ← machine
  let metrics ← newDict metrics
  let span : Span := ⟨step, id, m.scope.fields.spanId, .float 0, .null, metrics, .null, []⟩
  match ← make fun s => s.addSpan span with
  | .span i => return i
  | _ => return 0

/-- Changes a span. -/
def updateSpan (i : Nat) (f : Span → Span) : Work Unit :=
  modifyStore fun s => { s with spans := s.spans.modify i f }

/-- Ends a span, unless it has ended. -/
def stopSpan (i : Nat) : Work Unit :=
  updateSpan i fun span => if span.endedAt = .null then { span with endedAt := .float 0 } else span

/-- The duration of a span in milliseconds, to two places. -/
def duration (span : Span) : Work Value := do
  match ← milliseconds span with
  | .float x => return .float (Decimal.hundredths x)
  | v => return v

/-- What is reported of a span: duration, ids, the error if there is one, then the metrics. -/
def spanFields (span : Span) : Work Entries := do
  let entry (name : String) (v : Value) : Value × Value := (.str name, v)
  let base := [entry "duration_ms" (← duration span), entry "span_id" span.id]
  let parent := if ← truth span.parent then [entry "parent_span_id" span.parent] else []
  let error ← if span.error = .null then pure [] else do
    let text ← printed span.error
    pure [entry "status" (.str "error"), entry "error_type" (.str ((← store).typeName span.error)),
      entry "error_message" (.str text)]
  match ← make fun s => s.addDict (base ++ parent ++ error) with
  | .dict i =>
    updateFrom i span.metrics
    return (← store).dict i
  | _ => return []

/-- Entries as the fields of a log entry, whose names have to be texts. -/
def fieldsOf (entries : Entries) : Work (Table Value) :=
  each (fun e => do
    match e.1 with
    | .str name => return (name, e.2)
    | .category c => return (c.name, e.2)
    | v => failFor v (.notText "keywords")) entries

/-- The names that a timed step puts into the logging context; all others are metrics. -/
def isScopeName (name : String) : Bool := name = "processor" || name = "stage" || name = "file_path"

/-- The event of an entry of a timed step. -/
def stepEvent (event : Value) (ending : String) : Work Value := do
  return .str ((← formatted event) ++ ending)

/-- Opens a timed step: a span below the current one, a context of its own, and a first entry. -/
def openStep (event logStart level : Value) (values : Table Value) : Work OpenStep := do
  let shared := values.filter fun e => isScopeName e.1
  let metrics := values.filter fun e => !isScopeName e.1
  let i ← newSpan event metrics
  let m ← machine
  let span := m.store.spans.getD i default
  let ids : Table Value := [("span_id", span.id), ("parent_span_id", span.parent)]
  let token ← pushScope (m.scope.fields.merge (ids ++ shared))
  let step : OpenStep := ⟨event, level, i, token, m.logging.chain⟩
  let started ← attempt do
    if ← truth logStart then
      let start := Table.merge [("span_id", span.id)] metrics
      let start := if ← truth span.parent then start.set "parent_span_id" span.parent else start
      write step.chain "unified.timing" .debug (← stepEvent event ".start") start
      return step
    else return { step with chain := none }
  match started with
  | .ok step => return step
  | .error e =>
    handling e (restoreScope token)
    reraise e

/-- The chain of a step's logger: the one it was first used with, or the current one. -/
def stepChain (step : OpenStep) : Work (Option Chain) := do
  match step.chain with
  | some c => return some c
  | none => return (← machine).logging.chain

/-- Writes the last entry of a step, or does what else the logger has under a name. -/
def writeLast (step : OpenStep) (level : Value) (ending : String) : Work Unit := do
  let chain ← stepChain step
  let part ← loggerPart chain level
  let event ← stepEvent step.event ending
  let fields ← fieldsOf (← spanFields ((← store).span step.span))
  usePart part chain "unified.timing" event fields

/-- Closes a timed step. A normal end is logged outside its context; an ordinary error is logged
inside and goes on; other errors go on without an entry. -/
def closeStep {α : Type} (step : OpenStep) (result : Except Value α) : Work α := do
  match result with
  | .ok a =>
    stopSpan step.span
    restoreScope step.token
    writeLast step step.level ".end"
    return a
  | .error e =>
    let last ← if ← isOrdinary e then do
        stopSpan step.span
        updateSpan step.span fun span => { span with error := e }
        attempt (handling e (writeLast step (.str "error") ".error"))
      else pure (.ok ())
    handling e (restoreScope step.token)
    let _ ← release last
    reraise e

/-- Runs work inside a context that is brought back however the work ends. -/
def withinScope {α : Type} (values : Table Value) (w : Work α) : Work α := do
  let token ← pushScope ((← machine).scope.fields.merge values)
  match ← attempt w with
  | .ok a =>
    restoreScope token
    return a
  | .error e =>
    handling e (restoreScope token)
    reraise e

end Treeworks.Work
