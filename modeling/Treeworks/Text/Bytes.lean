import Treeworks.Text.Symbol

/-! Texts as bytes, by the encoding with one to four bytes for a character. A byte that is part of no character
is kept as the half of a surrogate pair that stands for it. -/
namespace Treeworks.Text

/-- The byte that a half stands for: one of the upper 128. -/
def byteOfHalf? (unit : Nat) : Option Nat := if 0xdc80 ≤ unit && unit < 0xdd00 then some (unit - 0xdc00) else none

/-- The bytes of a character. -/
def bytesOfChar (c : Char) : List Nat :=
  let n := c.toNat
  let tail (shift : Nat) : Nat := 0x80 + n / Nat.pow 2 shift % 0x40
  if n < 0x80 then [n]
  else if n < 0x800 then [0xc0 + n / Nat.pow 2 6, tail 0]
  else if n < 0x10000 then [0xe0 + n / Nat.pow 2 12, tail 6, tail 0]
  else [0xf0 + n / Nat.pow 2 18, tail 12, tail 6, tail 0]

/-- The bytes of a symbol; none for a half that stands for no byte. -/
def bytesOf? : Symbol → Option (List Nat)
  | .char c => some (bytesOfChar c)
  | .half unit => (byteOfHalf? unit).map ([·])

/-- The number that bytes begin with, as far as their first one says how many there are. -/
def leading? : List Nat → Option Nat
  | [] => none
  | a :: rest =>
    let value (head count : Nat) : Nat := (rest.take count).foldl (fun n b => n * 0x40 + b % 0x40) head
    if a < 0x80 then some a
    else if a < 0xe0 then some (value (a % 0x20) 1)
    else if a < 0xf0 then some (value (a % 0x10) 2)
    else some (value (a % 0x08) 3)

/-- The character at the start of some bytes: the one whose bytes they begin with. -/
def charAt? (bytes : List Nat) : Option Char :=
  ((leading? bytes).map Char.ofNat).filter fun c => (bytesOfChar c).isPrefixOf bytes

/-- The symbols that bytes stand for. The fuel is their number. -/
def symbolsOfBytes : Nat → List Nat → List Symbol
  | 0, _ => []
  | _, [] => []
  | fuel + 1, b :: rest =>
    match charAt? (b :: rest) with
    | some c => .char c :: symbolsOfBytes fuel ((b :: rest).drop (bytesOfChar c).length)
    | none => .half (0xdc00 + b) :: symbolsOfBytes fuel rest

/-- A text as it comes back after it was stored as bytes; none if it cannot be stored. -/
def stored? (s : String) : Option String :=
  ((symbols s).mapM bytesOf?).map fun bytes => ofSymbols (symbolsOfBytes bytes.flatten.length bytes.flatten)

theorem isPrefixOf_of_charAt?_eq_some {bytes : List Nat} {c : Char} (h : charAt? bytes = some c) :
    (bytesOfChar c).isPrefixOf bytes = true :=
  (Option.filter_eq_some_iff.1 h).2

end Treeworks.Text
