import Treeworks.Wording
import Treeworks.FaultContext

/-! Deep copies: a value of the same shape that shares no changeable object with the first. Sharing
and cycles inside the copied value are kept. Objects can have methods for their own copies. -/
namespace Treeworks

/-- Work on copies, which remembers those made so far. -/
abbrev CopyM := StateT (List (Value × Value)) Work

namespace Copying
open Work

/-- The copy of an object that was copied before. -/
def find? (v : Value) : CopyM (Option Value) := do return ((← get).find? fun e => e.1 = v).map (·.2)

/-- Records a copy. -/
def record (v copy : Value) : CopyM Unit := modify fun known => (v, copy) :: known

/-- Makes an object and records it as the copy of another. -/
def place (v : Value) (f : Store → Value × Store) : CopyM Value := do
  let new ← make f
  record v new
  return new

/-- Changes the store. -/
def change (f : Store → Store) : CopyM Unit := modifyStore f

/-- Fails because an object of a class cannot be copied. -/
def refuse (v : Value) : CopyM Value := failFor v .notCopyable

/-- Copies values from left to right. -/
def all (f : Value → CopyM Value) : List Value → CopyM (List Value)
  | [] => pure []
  | v :: rest => do
    let v ← f v
    let rest ← all f rest
    return v :: rest

/-- Copies the values of a table. -/
def table (f : Value → CopyM Value) (t : Table Value) : CopyM (Table Value) := do
  return t.keys.zip (← all f (t.map (·.2)))

/-- Copies values and their keys into a dictionary. -/
def entries (f : Value → CopyM Value) (dict : Value) : Entries → CopyM Unit
  | [] => pure ()
  | (k, v) :: rest => do
    let v ← f v
    let k ← f k
    setItem dict k v
    entries f dict rest

/-- The entries of a dictionary. -/
def entriesOf (v : Value) : CopyM Entries := do
  return ((← (store : Work Store)).mapping? v).getD []

/-- Copies what was fixed of a function, and what was stored on it. -/
def function (f g : Value → CopyM Value) (v : Value) (old : Function) (attrs : Table Value) : CopyM Value := do
  match old with
  | .script name signature kind asynchronous quiet body =>
    if kind = .plain then return v
    else do finish (← place v fun s => s.addFunction (.script name signature kind asynchronous quiet body))
  | .callback .. | .bound .. => return v
  | .fixed target leading keywords => do
    let target ← f target
    let new ← place v fun s => s.addFunction (.fixed target leading keywords)
    let leading ← f leading
    let keywords ← f keywords
    change fun s =>
      match new with
      | .function j => { s with functions := s.functions.modify j fun _ => .fixed target leading keywords }
      | _ => s
    finish new
where
  finish (new : Value) : CopyM Value := do
    let attrs ← table g attrs
    change fun s =>
      match new with
      | .function j => { s with functionAttrs := s.functionAttrs.modify j fun _ => attrs }
      | _ => s
    return new

/-- What an error is constructed with anew. -/
def renewed (detail : FaultDetail) (args : List Value) : Work (List Value) := do
  match detail, args with
  | .plain _, args => return args
  | .engine e, args =>
    if e.kind = .expectedNode && args.length ≤ 1 then
      return [.str ("Expected node, got " ++ (← written (args.headD .null)))]
    else if args.length = 1 then return args
    else fail (.misfit e.kind.name default)
  | .diagnostic _, reason :: rest =>
    if 1 < rest.length then fail (.misfit "VFileMessage" default)
    else if reason.isFault then return [.str (← printed reason)]
    else return [reason]
  | .diagnostic _, [] => fail (.misfit "VFileMessage" default)

/-- Copies an error: it is constructed anew of a copy of what it was constructed with, and then given
copies of its attributes. The error that it was raised from is left out. -/
def fault (f g : Value → CopyM Value) (v : Value) (old : Fault) : CopyM Value := do
  let s ← (store : Work Store)
  let args ← all f ((s.elements? old.args).getD [])
  let args ← (renewed old.detail args : Work _)
  let new ← place v fun s => s.addFault old.detail args .null
  let detail ← match old.detail with
    | .plain kind => pure (.plain kind)
    | .engine e => do
      let message ← g e.message
      let category ← g e.category
      let context ← g e.context
      let cause ← g e.cause
      let option ← g e.option
      let node ← g e.node
      pure (.engine ⟨e.kind, message, category, context, cause, option, node⟩)
    | .diagnostic d => do
      let cause ← g d.cause
      let reason ← g d.reason
      let name ← g d.name
      let line ← g d.line
      let column ← g d.column
      let file ← g d.file
      let fatal ← g d.fatal
      pure (.diagnostic ⟨reason, name, line, column, file, fatal, cause⟩)
  let attrs ← table g old.attrs
  match new with
  | .fault j => change fun s => s.updateFault j fun f => { f with detail := detail, attrs := attrs }
  | _ => pure ()
  return new

/-- Copies a file with its diagnostics and bags. -/
def file (f : Value → CopyM Value) (v : Value) (old : Carrier) : CopyM Value := do
  let new ← place v fun s => s.addFile old
  let contents ← f old.contents
  let filename ← f old.filename
  let directory ← f old.directory
  let extension ← f old.extension
  let quiet ← f old.quiet
  let messages ← f old.messages
  let bags ← f old.bags
  let attrs ← table f old.attrs
  match new with
  | .file j =>
    change fun s => s.updateFile j fun _ =>
      ⟨contents, filename, directory, extension, quiet, messages, bags, attrs⟩
  | _ => pure ()
  return new

/-- Copies a ware with its steps. Futures that it waits for cannot be copied. -/
def ware (f : Value → CopyM Value) (v : Value) (old : Ware) : CopyM Value := do
  let new ← place v fun s => s.addWare old
  let context ← f old.context
  let steps ← f old.steps
  let _ ← all f (old.pending.map .future)
  let attachers ← match old.attachers with
    | some v => do pure (some (← f v))
    | none => pure none
  let attrs ← table f old.attrs
  match new with
  | .ware j =>
    change fun s => { s with runner := s.runner.updateWare j fun _ => ⟨context, steps, attachers, [], attrs⟩ }
  | _ => pure ()
  return new

/-- Copies a step with what it calls. -/
def step (f : Value → CopyM Value) (v : Value) (old : Step) : CopyM Value := do
  let new ← place v fun s => s.addStep old
  let callee ← f old.callee
  let name ← f old.name
  let attrs ← table f old.attrs
  match new with
  | .step j =>
    change fun s => { s with runner := s.runner.updateStep j fun step =>
      { step with callee := callee, name := name, attrs := attrs } }
  | _ => pure ()
  return new

/-- The state that an instance is copied by: its dictionary if it has anything in it, with a dictionary of its
slots if any are taken. -/
def stateOf (v : Value) (x : Instance) : Work Value := do
  match ← found? v "__getstate__" with
  | some method => serve (.call method [] [])
  | none =>
    let s ← store
    let fields : Value := if (s.dict x.fields).isEmpty then .null else .dict x.fields
    if x.slots.isEmpty then return fields
    else
      let named := x.slots.map fun e => (match e.1 with | .slot _ name => Value.str name | v => v, e.2)
      newTuple [fields, ← make fun s => s.addDict named]

/-- A new instance of a class, made as the class makes instances. -/
def newLike (type : Nat) : Work Value := do
  match ← query (·.member? type "__new__") with
  | some (.value f) => serve (.call f [.type type] [])
  | _ => make fun s => s.addInstance type

/-- Brings an instance into a state, by its own method if it has one. -/
def restore (v state : Value) : Work Unit := do
  match ← attr? v "__setstate__" with
  | some method =>
    let _ : Value ← serve (.call method [state] [])
    return ()
  | none =>
    let (fields, slots) ← match state with
      | .tuple i =>
        match ← query (·.tuple i) with
        | [a, b] => pure (a, b)
        | _ => pure (state, .null)
      | state => pure (state, .null)
    if fields ≠ .null then
      match ← attr v "__dict__" with
      | .dict i => updateFrom i fields
      | w => failLacking w "update"
    if slots ≠ .null then
      match ← query (·.mapping? slots) with
      | some entries =>
        let _ ← each (fun e => setAttribute v e.1.keyText e.2) entries
        return ()
      | none => failLacking slots "items"

/-- What an object itself says of how to make it again, if it has a method for that. -/
def recipe? (v : Value) (x : Instance) : Work (Option Value) := do
  match ← found? v "__reduce_ex__", ← query (·.member? x.type "__reduce__") with
  | some method, _ => do return some (← serve (.call method [.int 4] []))
  | none, some _ => do return some (← callMethod v "__reduce__" [])
  | none, none => return none

/-- Copies an object by its own recipe: what is called with copies of which arguments, and copies of the state, the
items and the entries that the new object is given. -/
def follow (f : Value → CopyM Value) (v : Value) (recipe : List Value) : CopyM Value := do
  match recipe with
  | maker :: args :: rest => do
    if 3 < rest.length then (fail (.excess "copy" 4 7 (rest.length + 4)) : Work Unit)
    let args ← all f (← (elements args : Work _))
    let new : Value ← (serve (.call maker args []) : Work Value)
    record v new
    if rest.getD 0 .null ≠ .null then
      let state ← f (rest.getD 0 .null)
      (restore new state : Work Unit)
    if rest.getD 1 .null ≠ .null then
      let _ ← all (fun item => do
        let item ← f item
        append new item
        return item) (← (elements (rest.getD 1 .null) : Work _))
    if rest.getD 2 .null ≠ .null then
      let _ ← all (fun pair => do
        match ← (elements pair : Work _) with
        | [key, value] => do
          let key ← f key
          let value ← f value
          setItem new key value
          return key
        | parts => (fail (.notPair parts.length) : Work Value)) (← (elements (rest.getD 2 .null) : Work _))
    return new
  | _ => (fail (.misfit "copy" default) : Work Value)

/-- Copies an instance: by its own recipe, or a new one of its class is brought into a copy of its state. -/
def inst (f : Value → CopyM Value) (v : Value) (x : Instance) : CopyM Value := do
  match ← (recipe? v x : Work _) with
  | some (.str _) => return v
  | some recipe => do follow f v (← (elements recipe : Work _))
  | none => do
    let state ← (stateOf v x : Work Value)
    let new ← (newLike x.type : Work Value)
    record v new
    if state ≠ .null then
      let state ← f state
      (restore new state : Work Unit)
    return new

/-- The method that an object has for its own copies. Values that cannot have methods have none. -/
def copier? (s : Store) (v : Value) : Work (Option Value) := do
  let own : Bool := match v with
    | .record _ | .context _ | .worker _ | .processor _ | .fault _ | .file _ | .ware _ | .span _ | .passage _ => true
    | .function _ => !s.isPlainFunction v
    | _ => false
  if own then return (← attr? v "__deepcopy__").filter (· ≠ .null) else return none

/-- Copies a value; the fuel bounds its nesting, of which each kind of object takes its share. Views,
whatever can be awaited, and tokens cannot be copied; plain functions and classes are their own
copies. -/
def copy : Nat → Value → CopyM Value
  | 0, _ => (fail .tooDeep : Work Value)
  | fuel + 1, v => do
    let s ← (store : Work Store)
    match ← find? v, ← (copier? s v : Work _) with
    | some known, _ => return known
    | none, some method =>
      let memo ← newDict []
      let new : Value ← (serve (.call method [memo] []) : Work Value)
      if new ≠ v then record v new
      return new
    | none, none =>
      match v, fuel with
      | .list i, n + 1 => do
        let new ← place v fun s => s.addList []
        let _ ← all (fun w => do
          let w ← copy n w
          append new w
          return w) (s.list i)
        return new
      | .dict i, n + 1 => do
        let new ← place v fun s => s.addDict []
        entries (copy n) new (s.dict i)
        return new
      | .tuple i, n + 2 => do
        let items ← all (copy n) (s.tuple i)
        match ← find? v with
        | some known => return known
        | none => if items = s.tuple i then return v else place v fun s => s.addTuple items
      | .set i, n + 4 => do
        let items ← all (copy n) (s.set i).toList
        let elements ← (elementsOf items : Work _)
        place v fun s => s.addSet elements
      | .record i, n + 1 => do
        let new ← place v fun s => s.addRecord []
        let state ← entriesOf (← copy n (.dict (s.recordDict i)))
        match new with
        | .record j => change fun s => s.updateDict (s.recordDict j) fun _ => state
        | _ => pure ()
        return new
      | .point i, n + 3 => do
        let new ← place v fun s => s.addPoint (s.point i)
        let line ← copy n (s.point i).line
        let column ← copy n (s.point i).column
        match new with
        | .point j => change fun s => { s with points := s.points.modify j fun _ => ⟨line, column⟩ }
        | _ => pure ()
        return new
      | .context i, n + 1 => do
        let new ← place v fun s => s.addContext []
        let state ← entriesOf (← copy n (.dict (s.contexts.getD i 0)))
        match new with
        | .context j => change fun s => s.updateDict (s.contexts.getD j 0) fun _ => state
        | _ => pure ()
        return new
      | .worker i, n + 1 => inst (copy n) v (s.worker i)
      | .processor i, n + 1 => inst (copy n) v (s.processor i)
      | .fault i, n + 3 => fault (copy (n + 1)) (copy n) v (s.fault i)
      | .file i, n + 3 => file (copy n) v (s.file i)
      | .ware i, n + 3 => ware (copy n) v (s.runner.ware i)
      | .step i, n + 3 => step (copy n) v (s.runner.step i)
      | .function i, n + 7 =>
        function (copy (n + 3)) (copy n) v (s.function i) (s.functionAttrs.getD i [])
      | .span i, n + 5 => do
        let span := s.span i
        let new ← place v fun s => s.addSpan span
        let step ← copy (n + 2) span.step
        let id ← copy (n + 2) span.id
        let parent ← copy (n + 2) span.parent
        let metrics ← copy (n + 2) span.metrics
        let error ← copy (n + 2) span.error
        let attrs ← table (copy (n + 2)) span.attrs
        match new with
        | .span j => change fun s => { s with spans := s.spans.modify j fun _ =>
            { span with step := step, id := id, parent := parent, metrics := metrics, error := error, attrs := attrs } }
        | _ => pure ()
        return new
      | .passage i, n + 3 => do
        let p := s.passages.getD i default
        let new ← place v fun s => (.passage s.passages.size, { s with passages := s.passages.push p })
        let processor ← copy n p.processor
        let settings ← copy n p.settings
        let file ← copy n p.file
        let tree ← copy n p.tree
        let result ← copy n p.result
        match new with
        | .passage j => change fun s => { s with passages := s.passages.modify j fun _ =>
            ⟨processor, settings, file, tree, result⟩ }
        | _ => pure ()
        return new
      | .next t, n + 7 => do
        let ticket := s.runner.ticket t
        let new ← place v fun s =>
          (.next s.runner.tickets.size, { s with runner := { s.runner with
            tickets := s.runner.tickets.push ticket } })
        let step ← copy (n + 4) (.step ticket.step)
        match new, step with
        | .next j, .step k => change fun s => { s with runner := { s.runner with
            tickets := s.runner.tickets.modify j fun ticket => { ticket with step := k } } }
        | _, _ => pure ()
        return new
      | .view _, _ | .coroutine _, _ | .awaitable _, _ | .future _, _ | .token _, _ | .trace _, _ => refuse v
      | .type _, _ | .native _, _ | .hook _, _ | .slot .., _ => return v
      | v, _ => if v.isScalar then return v else (fail .tooDeep : Work Value)

end Copying

/-- The nesting up to which values can be copied. -/
def copyDepth : Nat := 980

/-- A deep copy of a value. -/
def Work.deepCopy (v : Value) : Work Value := do
  let (copy, _) ← (Copying.copy copyDepth v).run []
  return copy

end Treeworks
