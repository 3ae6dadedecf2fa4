import Treeworks.Script.Evaluation

/-! What parsers and compilers make when their actions give nothing: trees of the lines of a text, and
texts of the children of a tree. A tree is parked in the bag of a carrier file under the name of a
processor. -/
namespace Treeworks

namespace Work

/-- The path of a file, an empty text if it has none; anything else is asked for its path. -/
def pathOf (v : Value) : Work Value := do
  match v with
  | .file i => filePath i
  | v => callMethod v "file_path" []

/-- Whether a line starts with a text, or with one of a tuple of texts. -/
def startsWith (line : String) (v : Value) : Work Bool := do
  let begins (t : String) : Bool := t.toList.isPrefixOf line.toList
  match v with
  | .str t => return begins t
  | .tuple i => anyStart begins ((← store).tuple i)
  | v => failFor v (.notText "a start")
where
  /-- Whether one of some texts is a start. -/
  anyStart (begins : String → Bool) : List Value → Work Bool
    | [] => pure false
    | .str t :: rest => if begins t then pure true else anyStart begins rest
    | v :: _ => failFor v (.notText "a start")

/-- The longest of some keys that a line starts with, the first of those that are as long. -/
def longestStart (line : String) (best : Option Value) : List Value → Work (Option Value)
  | [] => pure best
  | key :: rest => do
    if ← startsWith line key then
      match best with
      | some b =>
        let better := (← size b) < (← size key)
        longestStart line (some (if better then key else b)) rest
      | none => longestStart line (some key) rest
    else longestStart line best rest

/-- The type of a line: the entry of the longest key among the rules that it starts with. -/
def lineType (rules : Value) (line : String) : Work Value := do
  match ← longestStart line none (← elements rules) with
  | some key => itemOf rules key
  | none => return .str "paragraph"

/-- The bag of whatever stands in the place of a file, under a key. -/
def bagIn (file key : Value) : Work Value := do
  match file with
  | .file i => bagOf i key
  | v => callMethod v "namespace" [key]

/-- The tree parked in a bag. -/
def treeIn (bag : Value) : Work Value := getEntry bag (.str "tree")

/-- The tree parked in a file under a key. -/
def slotTree (file key : Value) : Work Value := do treeIn (← bagIn file key)

/-- Data as a value. -/
def valueOf : Nat → Datum → Work Value
  | 0, _ => pure .null
  | fuel + 1, d => do
    match d with
    | .null => return .null
    | .bool b => return .bool b
    | .int n => return .int n
    | .float x => return .float x
    | .str t => return .str t
    | .arr items => newList (← each (valueOf fuel) items)
    | .obj fields => newDict (← each (fun e => do return (e.1, ← valueOf fuel e.2)) fields)

/-- A value as it is seen, as a value of its own. -/
def seenValue (v : Value) : Work Value := do valueOf seenDepth (← see v)

/-- A new dictionary for a root with some children. -/
def newRoot (parts : Table Value) (children : List Value) : Work Value := do
  newDict ([("type", .str "root")] ++ parts ++ [("children", ← newList children)])

/-- Whether a line has more in it than spaces and tabs. -/
def isFilled : Value → Bool
  | .str line => line.toList.any fun c => c ≠ ' ' && c ≠ '\t'
  | _ => true

/-- The node of a line, which has to be a text. -/
def lineNode (rules line : Value) : Work Value := do
  match line with
  | .str t => newDict [("type", ← lineType rules t), ("value", line)]
  | v => failLacking v "strip"

/-- What a parser makes of its file. -/
def parseProduct (worker : Value) (production : Production) : Work Value := do
  let file ← attr worker "file"
  let contents ← attr file "contents"
  match production with
  | .echo =>
    let path ← pathOf file
    let settings ← seenValue (← attr worker "settings")
    newRoot [("contents", contents), ("path", path), ("settings", settings)] []
  | _ =>
    let lines ← match contents with
      | .str text => pure ((text.splitOn "\n").map Value.str)
      | v => do elements (← callMethod v "split" [.str "\n"])
    let rules ← attr worker "rules"
    newRoot [] (← each (lineNode rules) (lines.filter isFilled))

/-- The text that joins the parts of an output. -/
def joiner (settings : Value) (standard : String) : Work Value := do
  return (((← store).mapping? settings).getD []).named? "joiner" |>.getD (.str standard)

/-- The entry of a mapping under a key made by work, or else another value. Whatever has a method for that is
asked; the method is found before the key is made. -/
def entryOr (v : Value) (key : Work Value) (standard : Value) : Work Value := do
  match ← query (·.mapping? v) with
  | some entries => do return (← valueUnder? entries (← key)).getD standard
  | none =>
    let get ← attr v "get"
    serve (.call get [← key, standard] [])

/-- The tagged text of a child of a tree. -/
def taggedChild (tags child : Value) : Work Value := do
  let tag ← entryOr tags (itemOf child (.str "type")) (.str "div")
  let opening ← formatted tag
  let value ← formatted (← itemOf child (.str "value"))
  let closing ← formatted tag
  return .str ("<" ++ opening ++ ">" ++ value ++ "</" ++ closing ++ ">")

/-- The texts of values that have to be texts. -/
def textsOf (values : List Value) : Work (List String) :=
  each (fun e => do
    match e.1 with
    | .str t => return t
    | v => failFor v (.notJoinable e.2)) values.zipIdx

/-- Values made by work, joined by a text or by whatever can join, which is asked for that before they are made. -/
def joined (join : Value) (values : Work (List Value)) : Work Value := do
  match join with
  | .str t => return .str (t.intercalate (← textsOf (← values)))
  | v =>
    let method ← attr v "join"
    serve (.call method [← newList (← values)] [])

/-- The error of a compiler that has no children to write. -/
def failChildless {α : Type} : Work α := do
  let context ← make fun s => s.contextFor .null .null
  raiseEngine .compile "no children" context .null

/-- What a compiler makes of the tree in its file's slot. -/
def compileProduct (worker : Value) (production : Production) : Work Value := do
  let file ← attr worker "file"
  let processor ← attr worker "processor"
  let tree ← slotTree file (← attr processor "name")
  match production with
  | .slot => return tree
  | .echo =>
    let settings ← seenValue (← attr worker "settings")
    let path ← pathOf file
    newDict [("settings", settings), ("path", path), ("tree", ← seenValue tree)]
  | production =>
    let s ← store
    match ((s.mapping? tree).getD []).named "children" with
    | .list j =>
      let children := s.list j
      match production with
      | .count => return .str (toString children.length)
      | .tags =>
        let join ← joiner (← attr worker "settings") ""
        let tags ← attr worker "tags"
        joined join (each (taggedChild tags) children)
      | _ =>
        let join ← joiner (← attr worker "settings") "\n"
        joined join (each (fun child => itemOf child (.str "value")) children)
    | _ => failChildless

/-- What a worker makes when its actions give nothing, by the part that one of its classes has in it. -/
def produce (worker : Value) (type : Nat) : Work Value := do
  match (← query (·.type type)).role with
  | .worker true spec => parseProduct worker spec.production
  | .worker false spec => compileProduct worker spec.production
  | _ => return .null

end Work
end Treeworks
