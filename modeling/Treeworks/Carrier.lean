import Treeworks.Position
import Treeworks.Copying

/-! Carrier files: how they are made, the bags in which processors keep trees, their paths, and
the diagnostics reported against them. -/
namespace Treeworks

namespace Store

/-- A new file without a path, with no diagnostics and no bags. -/
def emptyFile (s : Store) (contents : Value) : Value × Store :=
  let (messages, s) := s.addList []
  let (bags, s) := s.addDict []
  s.addFile ⟨contents, .null, .null, .null, .bool false, messages, bags, []⟩

/-- The file that a value names. -/
def fileIndex : Value → Nat
  | .file i => i
  | _ => 0

/-- Changes the path of a file in parts; parts given as null are kept. -/
def moveFile (s : Store) (file : Nat) (filename directory extension : Value) : Store :=
  s.updateFile file fun f =>
    { f with
      filename := if filename = .null then f.filename else filename
      directory := if directory = .null then f.directory else directory
      extension := if extension = .null then f.extension else extension }

end Store

namespace Work

/-- A new file: empty, of a text, of a mapping of its parts, or a copy of another file. The copy
has a list of its own of the same diagnostics, and bags of its own. -/
def newFile (options : Value) : Work Value := do
  match options with
  | .null => make fun s => s.emptyFile (.str "")
  | .str _ | .category _ | .spanId _ => make fun s => s.emptyFile options
  | .file i =>
    let f ← query (·.file i)
    let messages ← newList (← elements f.messages)
    let bags ← deepCopy f.bags
    make fun s => s.addFile { f with messages := messages, bags := bags, attrs := [] }
  | v =>
    match ← query (·.mapping? v) with
    | none => failFor v .notFile
    | some entries =>
      let new ← make fun s => s.emptyFile .null
      let contents ← trueOr (entries.named "contents") (.str "")
      modifyStore fun s => s.updateFile (Store.fileIndex new) fun f =>
        { f with
          contents := contents
          filename := entries.named "filename"
          directory := entries.named "directory"
          extension := entries.named "extension" }
      return new

/-- A file stays itself; anything else is made into a new file. -/
def coerceFile (v : Value) : Work Nat := do
  match v with
  | .file i => return i
  | v => return Store.fileIndex (← newFile v)

/-! ### Bags -/

/-- The bag of a file under a key, created empty when it is missing. -/
def bagOf (file : Nat) (key : Value) : Work Value := overridden (.file file) "namespace" [key] do
  let new ← newDict []
  match (← query (·.file file)).bags with
  | .dict d =>
    match ← valueUnder? (← query (·.dict d)) key with
    | some v => return v
    | none =>
      setEntry d key new
      return new
  | v => callMethod v "setdefault" [key, new]

/-- Whether a value is in another: as a key, as a part of a text, or as an element. -/
def isIn (v bags : Value) : Work Bool := do
  let s ← store
  match bags, v, s.mapping? bags with
  | _, _, some t => return (← valueUnder? t v).isSome
  | .str t, .str part, none => return t.contains part
  | .str _, v, none => failFor v (.notText "a part")
  | .set i, v, none => contains (s.set i) v
  | bags, v, none =>
    match ← special? bags "__contains__" with
    | some m => do truth (← callSpecial m [v])
    | none => do isAmong v (← elements bags)

/-- Whether a file has a bag under a key. -/
def hasBag (file : Nat) (key : Value) : Work Bool := do
  match ← query (·.attr? (.file file) "has_namespace") with
  | some f => do
    let found : Value ← serve (.call f [key] [])
    truth found
  | none => do isIn key ((← store).file file).bags

/-! ### Diagnostics -/

/-- A diagnostic of a reason, which may be an error, at a position. -/
def newDiagnostic (reason position file fatal : Value) : Work Value := do
  let said ← if reason.isFault then do pure (Value.str (← printed reason)) else pure reason
  let name ← positionName positionDepth position
  let start ← positionStart positionDepth position
  let d : Diagnostic :=
    ⟨said, .str name, start.line, start.column, file, fatal, if reason.isFault then reason else .null⟩
  make fun s => s.addFault (.diagnostic d) [said] .null

/-- A diagnostic bound to a file and not recorded. -/
def newMessage (file : Nat) (reason position : Value) : Work Value :=
  overridden (.file file) "message" [reason, position] do
    newDiagnostic reason position (← filePath file) (.bool false)

/-- Records a diagnostic on a file. -/
def recordMessage (file : Nat) (reason position : Value) (fatal : Bool) : Work Value := do
  let message ← newMessage file reason position
  setAttribute message "fatal" (.bool fatal)
  append (← query (·.file file)).messages message
  return message

/-- Whether a diagnostic is fatal. -/
def isFatal (v : Value) : Work Bool := do truth (← attr v "fatal")

/-- Whether one of some diagnostics is fatal. -/
def anyFatal : List Value → Work Bool
  | [] => pure false
  | v :: rest => do if ← isFatal v then return true else anyFatal rest

/-- Whether a fatal diagnostic was recorded. -/
def hasFailed (file : Nat) : Work Bool := do anyFatal (← elements ((← store).file file).messages)

end Work
end Treeworks
