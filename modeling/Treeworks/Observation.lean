import Treeworks.Carrier

/-! What a script gets to see of values: registered objects by their id, others by content. -/
namespace Treeworks

/-- The id under which an object is registered; the earliest entry counts. -/
def Machine.idOf? (m : Machine) (v : Value) : Option String :=
  if v.isScalar then none else (m.environment.find? fun e => e.2 = v).map (·.1)

namespace Work

/-- The name of a span id that was made here; names are numbered in the order of first use. -/
def spanName (n : Nat) : Work String := fun _ m =>
  match m.spanNames.findIdx? (· = n) with
  | some i => (.done ("s" ++ toString (i + 1)), m)
  | none =>
    (.done ("s" ++ toString (m.spanNames.length + 1)), { m with spanNames := m.spanNames ++ [n] })

/-- The data of entries. -/
def observeEntries (f : Value → Work Datum) (t : Entries) : Work (List (String × Datum)) :=
  each (fun e => do return (e.1.keyText, ← f e.2)) t

/-- An object with one field. -/
def tagged (tag : String) (d : Datum) : Datum := .obj [(tag, d)]

/-- The beginnings of texts by which a message is known to be the library's own. -/
def ownMessages : List String := ["Cannot create a VFile from ", "Expected a callable step, got ", "step "]

/-- A diagnostic as a line. -/
def diagnosticLine (v : Value) : Work Datum := do
  let text ← printed v
  return .str (text ++ if ← isFatal v then " [fatal]" else "")

mutual
/-- The form of an error: class, message where it is fixed, id, and context if it has no id. -/
def observeFault : Nat → Value → Work Datum
  | 0, _ => fail .tooDeep
  | fuel + 1, v => do
    let m ← machine
    let s := m.store
    let id := m.idOf? v
    let detail := match v with
      | .fault i => (s.fault i).detail
      | _ => .plain .type
    let text ← printed v
    let known := match detail with
      | .plain .. => id.isSome || ownMessages.any (text.startsWith ·)
      | _ => true
    let context ← match detail, id with
      | .engine _, none => do
        pure [("context", ← observe fuel (← contextDict (← attr v "context")))]
      | _, _ => pure []
    return .obj ([("error", .str (s.typeName v)), ("message", if known then .str text else .null)] ++
      (match id with | some id => [("ref", Datum.str id)] | none => []) ++ context)

/-- A value as it is seen: registered objects by id. -/
def observe : Nat → Value → Work Datum
  | 0, _ => fail .tooDeep
  | fuel + 1, v => do
    match (← machine).idOf? v with
    | some id => return tagged "$ref" (.str id)
    | none => observeContent fuel v

/-- The state of a file. -/
def observeFile : Nat → Nat → Work Datum
  | 0, _ => fail .tooDeep
  | fuel + 1, i => do
    let f ← query (·.file i)
    let contents ← observe fuel f.contents
    let filename ← observe fuel f.filename
    let directory ← observe fuel f.directory
    let extension ← observe fuel f.extension
    let quiet ← observe fuel f.quiet
    let path ← observe fuel (← filePath i)
    let messages ← each diagnosticLine (← elements f.messages)
    let bags ← match ← query (·.mapping? f.bags) with
      | some t => pure t
      | none => do each pairOf (← elements (← callMethod f.bags "items" []))
    let bags ← observeEntries (observe fuel) bags
    return .obj [
      ("contents", contents), ("filename", filename), ("directory", directory), ("extension", extension),
      ("quiet", quiet), ("path", path), ("messages", .arr messages), ("namespaces", .obj bags)]

/-- The content of a value; what is inside it is seen as usual. -/
def observeContent : Nat → Value → Work Datum
  | 0, _ => fail .tooDeep
  | fuel + 1, v => do
    let s ← store
    match v with
    | .null => return .null
    | .bool b => return .bool b
    | .int n => return .int n
    | .float x => return .float x
    | .str t => return .str t
    | .category c => return .str c.name
    | .spanId n => return .str (← spanName n)
    | .list i => return .arr (← each (observe fuel) (s.list i))
    | .dict i => return .obj (← observeEntries (observe fuel) (s.dict i))
    | .tuple i => return tagged "$tuple" (.arr (← each (observe fuel) (s.tuple i)))
    | .set i => return tagged "$set" (.arr (Datum.sorted (← each (observe fuel) (s.set i).toList)))
    | .record i => return tagged "$node" (.obj (← observeEntries (observe fuel) (s.record i)))
    | .view i => return tagged "$map" (.obj (← observeEntries (observe fuel) (s.view i)))
    | .fault _ => return tagged "$error" (← observeFault fuel v)
    | .file i => return tagged "$file" (← observeFile fuel i)
    | .processor _ => return tagged "$processor" (.str (← written v))
    | .ware _ => return tagged "$ware" (.int (← size v))
    | .next _ => return .str "$next"
    | .coroutine _ | .awaitable _ | .future _ => return .str "$awaitable"
    | .type i => return tagged "$class" (.str (s.type i).name)
    | .native name => return tagged "$class" (.str name)
    | v =>
      if ← isAwaitable v then return .str "$awaitable"
      else if s.isCallable v then
        match ← describe v with
        | .str t => return tagged "$fn" (.str t)
        | name => return tagged "$fn" (← observe fuel name)
      else return tagged "$instance" (.str (s.typeName v))
end

/-- The nesting up to which values are shown. -/
def seenDepth : Nat := 980

/-- A value as it is seen. -/
def see (v : Value) : Work Datum := observe seenDepth v

/-- The entries of a table as they are seen. -/
def seeTable (t : Table Value) : Work (List (String × Datum)) := eachValue see t

/-- The form of an error. -/
def seeFault (v : Value) : Work Datum := observeFault seenDepth v

/-- The fields of the form of an error. -/
def seeFaultFields (v : Value) : Work (List (String × Datum)) := do
  match ← seeFault v with
  | .obj fields => return fields
  | _ => return []

/-- The state of a file. -/
def seeFile (i : Nat) : Work Datum := observeFile seenDepth i

/-- The content of a value. -/
def seeContent (v : Value) : Work Datum := observeContent seenDepth v

/-- Registers a value; an id that is there keeps its place. -/
def register (id : String) (v : Value) : Work Unit :=
  modify fun m => { m with environment := m.environment.set id v }

/-- Whether an object is registered. -/
def isRegistered (v : Value) : Work Bool := do return ((← machine).idOf? v).isSome

end Work
end Treeworks
