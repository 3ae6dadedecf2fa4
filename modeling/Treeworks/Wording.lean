import Treeworks.Conduct

/-! The texts of values: one as a value is written down, one as it is printed, one as it stands inside another
text. The class of an instance can define each. A file can have no text, because its contents or the parts of its
path are no texts, and so has whatever shows it. -/
namespace Treeworks.Work

/-- Texts with commas between them. -/
def listed (texts : List String) : String := ", ".intercalate texts

/-- A path without the slashes at its end. -/
def withoutSlashes (path : String) : String :=
  String.ofList (path.toList.reverse.dropWhile (· = '/')).reverse

/-- The text that a method gives; what it gives has to be one. -/
def textBy (m : Value × List Value) (args : List Value) : Work String := do
  match ← callSpecial m args with
  | .str t => return t
  | w => failFor w .notShown

/-- A value, or one in its place if it does not count as true. -/
def trueOr (v standard : Value) : Work Value := do if ← truth v then return v else return standard

mutual
/-- The text of a value as it is written down. The fuel bounds the nesting; a container inside
itself is only hinted at, `shown` being those around the value. -/
def writtenAt : Nat → List Value → Value → Work String
  | 0, _, _ => fail .tooDeep
  | fuel + 1, shown, v => do
    let s ← store
    let inside := writtenAt fuel (v :: shown)
    let unlessShown (hint : String) (text : Work String) : Work String :=
      if shown.contains v then pure hint else text
    let entries (t : Entries) : Work String := do
      let texts ← each (fun e => do return (← inside e.1) ++ ": " ++ (← inside e.2)) t
      return "\x7b" ++ listed texts ++ "\x7d"
    let fields (name : String) (t : Entries) : Work String := do
      let texts ← each (fun e => do return e.1.keyText ++ "=" ++ (← inside e.2)) t
      return name ++ "(" ++ listed texts ++ ")"
    let sequence (items : List Value) : Work String := do
      match ← each inside items with
      | [text] => return "(" ++ text ++ ",)"
      | texts => return "(" ++ listed texts ++ ")"
    match ← special? v "__repr__" with
    | some m => textBy m []
    | none =>
      match v with
      | .null => return "None"
      | .bool b => return if b then "True" else "False"
      | .int n => return toString n
      | .float x => return Decimal.text x
      | .str t => return Text.quoted t
      | .category c => return "<ErrorCategory." ++ c.name ++ ": " ++ Text.quoted c.name ++ ">"
      | .list i => unlessShown "[...]" do return "[" ++ listed (← each inside (s.list i)) ++ "]"
      | .dict i => unlessShown "\x7b...\x7d" (entries (s.dict i))
      | .view i => do
        let text ← unlessShown "\x7b...\x7d" (entries (s.view i))
        return "mappingproxy(" ++ text ++ ")"
      | .tuple i => unlessShown "(...)" (sequence (s.tuple i))
      | .set i => unlessShown "set(...)" do
        match ← each inside (s.set i).toList with
        | [] => return "set()"
        | texts => return "\x7b" ++ listed texts ++ "\x7d"
      | .record i => unlessShown "namespace(...)" (fields "namespace" (s.record i))
      | .point i =>
        unlessShown "..." (fields "Point" [(.str "line", (s.point i).line), (.str "column", (s.point i).column)])
      | .context _ => unlessShown "..." do
        let parts ← each (fun name => do return (Value.str name, ← attr v name))
          ["processor", "stage", "file_path", "metadata"]
        fields "ErrorContext" parts
      | .fault i =>
        match (s.fault i).detail with
        | .engine e => do
          let message ← inside e.message
          let category ← formattedAt fuel (← attr e.category "value")
          return e.kind.name ++ "(" ++ message ++ ", category=" ++ category ++ ")"
        | _ => do
          let args ← each inside ((s.elements? (s.fault i).args).getD [])
          return (s.fault i).kindName ++ "(" ++ listed args ++ ")"
      | .file i => do
        let path ← pathAt fuel i
        if ← truth path then return "VFile(" ++ (← inside path) ++ ")"
        else return "VFile(contents=" ++ (← startAt fuel ((← store).file i).contents) ++ ")"
      | .processor i => do
        let name ← inside (← attr v "name")
        let count ← size (← attr v "ware")
        return (s.type (s.processor i).type).name ++ "(name=" ++ name ++ ", transformers=" ++ toString count ++ ")"
      | .ware i => unlessShown "..." do
        let w := s.runner.ware i
        fields (s.typeName v) [(.str "context", w.context), (.str "fns", w.steps)]
      | .step _ => unlessShown "..." do
        let parts ← each (fun name => do return (Value.str name, ← attr v name))
          ["fn", "name", "required", "accepted", "wants_context"]
        fields "WareStep" parts
      | .span _ => unlessShown "..." do
        let parts ← each (fun name => do return (Value.str name, ← attr v name))
          ["step", "span_id", "parent_span_id", "started_at", "ended_at", "metrics", "error"]
        fields "TimingResult" parts
      | .type i =>
        let t := s.type i
        let place := match t.module with
          | .str module => if module = "builtins" then t.name else module ++ "." ++ t.qualname
          | _ => t.name
        return "<class '" ++ place ++ "'>"
      | .native name => return "<class '" ++ name ++ "'>"
      | v => return "<" ++ s.typeName v ++ ">"

/-- The text of a value as it is printed. -/
def printedAt : Nat → Value → Work String
  | 0, _ => fail .tooDeep
  | fuel + 1, v => do
    let s ← store
    match ← special? v "__str__" with
    | some m => textBy m []
    | none =>
      match v with
      | .str t => return t
      | .category c => return "ErrorCategory." ++ c.name
      | .point i => do
        let line ← formattedAt fuel (← trueOr (s.point i).line (.int 1))
        let column ← formattedAt fuel (← trueOr (s.point i).column (.int 1))
        return line ++ ":" ++ column
      | .fault i =>
        match (s.fault i).detail with
        | .diagnostic d => do
          let place ← if ← truth d.file then do
              pure ((← formattedAt fuel d.file) ++ ":" ++ (← formattedAt fuel d.name))
            else formattedAt fuel d.name
          return place ++ ": " ++ (← formattedAt fuel d.reason)
        | detail =>
          match (s.elements? (s.fault i).args).getD [] with
          | [] => return ""
          | [v] => if detail = .plain .key then writtenAt fuel [] v else printedAt fuel v
          | _ => writtenAt fuel [] (s.fault i).args
      | .file i =>
        match (s.file i).contents with
        | .str t => return t
        | v => failFor v .notShown
      | v => writtenAt fuel [] v

/-- The text of a value as it stands inside another text. -/
def formattedAt : Nat → Value → Work String
  | 0, _ => fail .tooDeep
  | fuel + 1, v => do
    match ← special? v "__format__" with
    | some m => textBy m [.str ""]
    | none => printedAt fuel v

/-- The path of a file: directory, name and extension, as far as they are given. A name that stands
alone is the path, whatever it is; without a name there is no path. -/
def pathAt : Nat → Nat → Work Value
  | 0, _ => fail .tooDeep
  | fuel + 1, i => overridden (.file i) "file_path" [] do
    let f ← query (·.file i)
    if !(← truth f.filename) then return .str ""
    let path ← if ← truth f.extension then do
        pure (Value.str ((← formattedAt fuel f.filename) ++ "." ++ (← formattedAt fuel f.extension)))
      else pure f.filename
    if !(← truth f.directory) then return path
    let directory ← match f.directory with
      | .str t => pure (withoutSlashes t)
      | v => do formattedAt fuel (← callMethod v "rstrip" [.str "/"])
    return .str (directory ++ "/" ++ (← formattedAt fuel path))

/-- The text of the start of what a file holds, which has to be a text or a sequence. -/
def startAt : Nat → Value → Work String
  | 0, _ => fail .tooDeep
  | fuel + 1, contents => do
    let s ← store
    match contents with
    | .str t => return Text.quoted (Text.firstSymbols 20 t)
    | .list i => return "[" ++ listed (← each (writtenAt fuel []) ((s.list i).take 20)) ++ "]"
    | .tuple i =>
      match ← each (writtenAt fuel []) ((s.tuple i).take 20) with
      | [text] => return "(" ++ text ++ ",)"
      | texts => return "(" ++ listed texts ++ ")"
    | v => failFor v .notIndexable
end

/-- The nesting up to which texts are written. -/
def writtenDepth : Nat := 950

/-- The text of a value as it is written down. -/
def written (v : Value) : Work String := writtenAt writtenDepth [] v

/-- The text of a value as it is printed. -/
def printed (v : Value) : Work String := printedAt writtenDepth v

/-- The text of a value as it stands inside another text. -/
def formatted (v : Value) : Work String := formattedAt writtenDepth v

/-- The path of a file, an empty text if it has none. -/
def filePath (file : Nat) : Work Value := pathAt writtenDepth file

/-- The path of a file; null if it has none. -/
def filePath? (file : Nat) : Work Value := do trueOr (← filePath file) .null

end Treeworks.Work
