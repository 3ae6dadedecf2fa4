import Treeworks.Text.CaseTables
import Treeworks.Text.Printable

/-! Texts in upper, lower and title case. A capital sigma at the end of a word has a lower-case form
of its own; in title case the first letter of every run of cased letters is raised, the others are
lowered. -/
namespace Treeworks.Text

/-- The partner of a letter that stands in a run. -/
def partner? (runs : List CaseRun) (n : Nat) : Option Nat :=
  (runs.find? fun r => r.first ≤ n && n ≤ r.last && (n - r.first) % r.step = 0).map fun r =>
    ((n : Int) + r.shift).toNat

/-- The entry of a code point in a table of special forms. -/
def special? (table : List (Nat × List Nat)) (n : Nat) : Option (List Char) :=
  (table.find? (·.1 = n)).map fun e => e.2.map Char.ofNat

/-- Whether a character has a case. -/
def isCased (c : Char) : Bool := inRanges casedRanges c.toNat

/-- Whether a word goes on across a character. -/
def isIgnored (c : Char) : Bool := inRanges ignoredRanges c.toNat

/-- The capital of a letter. -/
def raise (c : Char) : List Char :=
  match special? upperSpecial c.toNat with
  | some cs => cs
  | none => [((partner? upperRuns c.toNat).map Char.ofNat).getD c]

/-- A letter at the start of a title. -/
def entitle (c : Char) : List Char :=
  match special? titleSpecial c.toNat with
  | some cs => cs
  | none => if inRanges titleKept c.toNat then [c] else raise c

/-- Whether a letter between two texts ends a word: cased letters before it, none after it. -/
def endsWord (before after : List Char) : Bool :=
  (before.dropWhile isIgnored).head?.any isCased && !(after.dropWhile isIgnored).head?.any isCased

/-- The lower-case form of a letter; what stands before it is given in reverse. -/
def lowerAt (before : List Char) (c : Char) (after : List Char) : List Char :=
  if c.toNat = 0x3a3 then [Char.ofNat (if endsWord before after then 0x3c2 else 0x3c3)]
  else if c.toNat = 0x130 then ['i', Char.ofNat 0x307]
  else [((partner? lowerRuns c.toNat).map Char.ofNat).getD c]

/-- Lower case from a place on. -/
def lowerFrom (before : List Char) : List Char → List Char
  | [] => []
  | c :: rest => lowerAt before c rest ++ lowerFrom (c :: before) rest

/-- Title case from a place on. -/
def titleFrom (before : List Char) : List Char → List Char
  | [] => []
  | c :: rest =>
    (if before.head?.any isCased then lowerAt before c rest else entitle c) ++ titleFrom (c :: before) rest

/-- A text in title case. -/
def title (s : String) : String := String.ofList (titleFrom [] s.toList)

/-- A text in upper case. -/
def upper (s : String) : String := String.ofList (s.toList.flatMap raise)

/-- A text in lower case. -/
def lower (s : String) : String := String.ofList (lowerFrom [] s.toList)

end Treeworks.Text
