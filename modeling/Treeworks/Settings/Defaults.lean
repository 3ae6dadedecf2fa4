import Treeworks.Table
import Treeworks.Text.Blank

/-! A file of defaults: lines `name=value`, with comments, quoted values, and values that refer to
variables. A line that does not fit is skipped. -/
namespace Treeworks.Defaults

/-- Blanks inside a line. -/
def isInlineBlank (c : Char) : Bool := Text.isBlank c && c ≠ '\n'

/-- Without the blanks at the start of the line. -/
def skipInline (cs : List Char) : List Char := cs.dropWhile isInlineBlank

/-- What follows the rest of a line. -/
def skipLine (cs : List Char) : List Char := (cs.dropWhile (· ≠ '\n')).drop 1

/-- What follows the word `export` and blanks, if the line begins with them. -/
def skipExport (cs : List Char) : List Char :=
  let word := "export".toList
  if word.isPrefixOf cs then
    let rest := cs.drop word.length
    if rest.head?.any isInlineBlank then skipInline rest else cs
  else cs

/-- The name at the start of a line: in single quotes, or up to a blank or a sign; a comment has
none. Fails if there is nothing of the kind. -/
def name? (cs : List Char) : Option (Option String × List Char) :=
  match cs with
  | '#' :: _ => some (none, cs)
  | '\'' :: rest =>
    match rest.takeWhile (· ≠ '\''), rest.dropWhile (· ≠ '\'') with
    | _ :: _, _ :: after => some (some (String.ofList (rest.takeWhile (· ≠ '\''))), after)
    | _, _ => none
  | cs =>
    let isPart (c : Char) : Bool := c ≠ '=' && c ≠ '#' && !Text.isBlank c
    if cs.head?.any isPart then some (some (String.ofList (cs.takeWhile isPart)), cs.dropWhile isPart)
    else none

/-- What stands before the quote that ends a quoted value, in reverse, and what follows it. A backslash and
the character after it stand together, and they have to be on one line. -/
def quoted? (quote : Char) (before : List Char) : List Char → Option (List Char × List Char)
  | [] => none
  | ['\\'] => none
  | '\\' :: c :: rest => if c = '\n' then none else quoted? quote (c :: '\\' :: before) rest
  | c :: rest => if c = quote then some (before, rest) else quoted? quote (c :: before) rest

/-- The character of an escape inside single quotes. -/
def singleEscape? (c : Char) : Option Char := if c = '\\' || c = '\'' then some c else none

/-- The character of an escape inside double quotes. -/
def doubleEscape? (c : Char) : Option Char :=
  if c = '\\' || c = '\'' || c = '"' then some c
  else if c = 'a' then some (Char.ofNat 7)
  else if c = 'b' then some (Char.ofNat 8)
  else if c = 'f' then some (Char.ofNat 12)
  else if c = 'n' then some '\n'
  else if c = 'r' then some '\r'
  else if c = 't' then some '\t'
  else if c = 'v' then some (Char.ofNat 11)
  else none

/-- A text with its escapes resolved; a backslash before any other character stays. -/
def unescape (escape? : Char → Option Char) : List Char → List Char
  | [] => []
  | '\\' :: c :: rest =>
    match escape? c with
    | some e => e :: unescape escape? rest
    | none => '\\' :: unescape escape? (c :: rest)
  | c :: rest => c :: unescape escape? rest

/-- A value without the comment that begins at a sign after a blank. -/
def withoutComment : List Char → List Char
  | [] => []
  | c :: rest =>
    if Text.isBlank c && (rest.dropWhile Text.isBlank).head? = some '#' then []
    else c :: withoutComment rest

/-- The value after the sign: quoted, or the rest of the line, which is a comment where it begins with one after
a blank. Fails if a quote stays open. -/
def value? (blank : Bool) (cs : List Char) : Option (String × List Char) :=
  match cs with
  | '\'' :: rest => (quoted? '\'' [] rest).map fun (before, after) =>
      (String.ofList (unescape singleEscape? before.reverse), after)
  | '"' :: rest => (quoted? '"' [] rest).map fun (before, after) =>
      (String.ofList (unescape doubleEscape? before.reverse), after)
  | cs =>
    let part := if blank && cs.head? = some '#' then [] else withoutComment (cs.takeWhile (· ≠ '\n'))
    some (String.ofList (Text.trimEnd part), cs.dropWhile (· ≠ '\n'))

/-- What follows a comment, if there is one. -/
def skipComment (cs : List Char) : List Char :=
  match skipInline cs with
  | '#' :: rest => rest.dropWhile (· ≠ '\n')
  | _ => cs

/-- A name with its value, if it has one. -/
abbrev Binding := String × Option String

/-- What a line holds: a binding or nothing, or what does not fit. -/
inductive Line
  | bound (binding : Option Binding)
  | misfit
  deriving DecidableEq, Inhabited

/-- Ends a line, on which only blanks and a comment may follow. -/
def endLine (binding : Option Binding) (cs : List Char) : Line × List Char :=
  let cs := skipComment cs
  match skipInline cs with
  | [] => (.bound binding, [])
  | '\n' :: rest => (.bound binding, rest)
  | _ => (.misfit, skipLine cs)

/-- What a line holds, and what follows it. -/
def line (cs : List Char) : Line × List Char :=
  let cs := skipExport cs
  match name? cs with
  | none => (.misfit, skipLine cs)
  | some (name, cs) =>
    let bound (value : Option String) : Option Binding := name.map fun n => (n, value)
    match skipInline cs with
    | '=' :: rest =>
      let after := skipInline rest
      match value? (after.length < rest.length) after with
      | none => (.misfit, skipLine after)
      | some (value, rest) => endLine (bound (some value)) rest
    | cs => endLine (bound none) cs

/-- The lines of a text, in order. The fuel bounds their number. -/
def lines : Nat → List Char → List Line
  | 0, _ => []
  | fuel + 1, cs =>
    match cs.dropWhile Text.isBlank with
    | [] => []
    | cs =>
      let (found, rest) := line cs
      found :: lines fuel rest

/-- The binding of a line, if it has one. -/
def Line.binding? : Line → Option Binding
  | .bound binding => binding
  | .misfit => none

/-- A reference to a variable at the start of a text: its name, what stands in for it if there is no
such variable, and what follows. -/
def reference? : List Char → Option (String × String × List Char)
  | '$' :: '\x7b' :: rest =>
    let isName (c : Char) : Bool := c ≠ '\x7d' && c ≠ ':'
    let name := String.ofList (rest.takeWhile isName)
    match rest.dropWhile isName with
    | '\x7d' :: after => some (name, "", after)
    | ':' :: '-' :: more =>
      match more.dropWhile (· ≠ '\x7d') with
      | _ :: after => some (name, String.ofList (more.takeWhile (· ≠ '\x7d')), after)
      | [] => none
    | _ => none
  | _ => none

/-- A value with its references resolved. The fuel bounds its length. -/
def resolved (valueOf : String → Option (Option String)) : Nat → List Char → List Char
  | 0, _ => []
  | fuel + 1, cs =>
    match reference? cs with
    | some (name, standard, after) =>
      (((valueOf name).getD (some standard)).getD "").toList ++ resolved valueOf fuel after
    | none =>
      match cs with
      | [] => []
      | c :: rest => c :: resolved valueOf fuel rest

/-- The names with their values: a value sees the variables of the environment and the values before
it, which win. -/
def resolveAll (env : Table String) : List Binding → Table (Option String) → Table (Option String)
  | [], known => known
  | (name, none) :: rest, known => resolveAll env rest (known.set name none)
  | (name, some value) :: rest, known =>
    let valueOf (n : String) : Option (Option String) := (known.get? n).or ((env.get? n).map some)
    let cs := value.toList
    resolveAll env rest (known.set name (some (String.ofList (resolved valueOf (cs.length + 1) cs))))

/-- The defaults that a text holds, and how many of its lines do not fit. A mark of byte order at its start does
not count. -/
def ofText (env : Table String) (text : String) : Table (Option String) × Nat :=
  let cs := Text.withLineFeeds text.toList
  let cs := if cs.head? = some (Char.ofNat 0xfeff) then cs.drop 1 else cs
  let found := lines (cs.length + 1) cs
  (resolveAll env (found.filterMap Line.binding?) [], found.count .misfit)

/-- The text of lines with a name and a value each. -/
def textOf (lines : List (String × String)) : String :=
  String.join (lines.map fun e => e.1 ++ "=" ++ e.2 ++ "\n")

end Treeworks.Defaults
