import Treeworks.Datum

/-! Reading data from their text. -/
namespace Treeworks.Datum

/-- Why a text cannot be read: it is no data text, or it is nested too deeply. -/
inductive Unreadable
  | malformed
  | tooDeep
  deriving DecidableEq, Inhabited

/-- Blanks between tokens. -/
def isBlank (c : Char) : Bool := c = ' ' || c = '\n' || c = '\r' || c = '\t'

/-- The text without leading blanks. -/
def skipBlanks (cs : List Char) : List Char := cs.dropWhile isBlank

/-- The value of a hexadecimal digit. -/
def hexDigit? (c : Char) : Option Nat :=
  if '0' ≤ c && c ≤ '9' then some (c.toNat - 48)
  else if 'a' ≤ c && c ≤ 'f' then some (c.toNat - 87)
  else if 'A' ≤ c && c ≤ 'F' then some (c.toNat - 55)
  else none

/-- A number of four hexadecimal digits. -/
def hexFour? : List Char → Option (Nat × List Char)
  | a :: b :: c :: d :: rest => do
    let a ← hexDigit? a
    let b ← hexDigit? b
    let c ← hexDigit? c
    let d ← hexDigit? d
    return (((a * 16 + b) * 16 + c) * 16 + d, rest)
  | _ => none

/-- The character of a one-letter escape. -/
def escape? (c : Char) : Option Char :=
  if c = 'n' then some '\n'
  else if c = 't' then some '\t'
  else if c = 'r' then some '\r'
  else if c = 'b' then some (Char.ofNat 8)
  else if c = 'f' then some (Char.ofNat 12)
  else if c = '"' || c = '\\' || c = '/' then some c
  else none

/-- A symbol written as one code unit or as the two of a pair. -/
def unitEscape? (cs : List Char) : Option (Text.Symbol × List Char) := do
  let (unit, rest) ← hexFour? cs
  match Text.isHigh unit, rest with
  | true, '\\' :: 'u' :: more =>
    let (low, after) ← hexFour? more
    if Text.isLow low then return (.char (Char.ofNat (Text.pairPoint unit low)), after)
    else return (.ofUnit unit, rest)
  | _, _ => return (.ofUnit unit, rest)

/-- The rest of a text literal after its opening quote; what was read so far comes last first. -/
def readText : Nat → List Char → List Char → Option (String × List Char)
  | 0, _, _ => none
  | fuel + 1, acc, cs =>
    match cs with
    | [] => none
    | '"' :: rest => some (String.ofList acc.reverse, rest)
    | '\\' :: 'u' :: rest =>
      match unitEscape? rest with
      | some (x, rest) => readText fuel (x.spelling.reverse ++ acc) rest
      | none => none
    | '\\' :: c :: rest =>
      match escape? c with
      | some c => readText fuel (c :: acc) rest
      | none => none
    | c :: rest => if c.toNat < 0x20 then none else readText fuel (c :: acc) rest

/-- The value of decimal digits. -/
def digitsValue (cs : List Char) : Nat := cs.foldl (fun n c => n * 10 + (c.toNat - 48)) 0

/-- The greatest number of digits of a whole number. -/
def mostDigits : Nat := 4300

/-- A whole number, or a binary number if there is a point or an exponent. -/
def readNumber (cs : List Char) : Option (Datum × List Char) :=
  let (negative, cs) := match cs with
    | '-' :: rest => (true, rest)
    | cs => (false, cs)
  let whole := cs.takeWhile Char.isDigit
  let rest := cs.dropWhile Char.isDigit
  if whole.isEmpty || (whole.head? = some '0' && whole.length > 1) then none
  else
    let (fraction, rest) := match rest with
      | '.' :: more =>
        let digits := more.takeWhile Char.isDigit
        if digits.isEmpty then ([], rest) else (digits, more.dropWhile Char.isDigit)
      | _ => ([], rest)
    let (power, rest) := match rest with
      | e :: more =>
        if e = 'e' || e = 'E' then
          let (minus, digits) := match more with
            | '-' :: ds => (true, ds)
            | '+' :: ds => (false, ds)
            | ds => (false, ds)
          let value := digits.takeWhile Char.isDigit
          if value.isEmpty then (none, rest)
          else
            let n : Int := digitsValue value
            (some (if minus then -n else n), digits.dropWhile Char.isDigit)
        else (none, rest)
      | [] => (none, rest)
    if fraction.isEmpty && power.isNone then
      let n : Int := digitsValue whole
      if whole.length > mostDigits then none
      else some (.int (if negative then -n else n), rest)
    else
      some (.float (Decimal.ofParts negative (digitsValue (whole ++ fraction))
        (power.getD 0 - fraction.length)), rest)

/-- An infinity at the start of a text. -/
def infinity? (cs : List Char) : Option (Datum × List Char) :=
  let word := "Infinity".toList
  if word.isPrefixOf cs then some (.float (1.0 / 0.0), cs.drop word.length)
  else if ('-' :: word).isPrefixOf cs then some (.float (-1.0 / 0.0), cs.drop (word.length + 1))
  else none

/-- What was read, if anything was. -/
def read {α : Type} : Option α → Except Unreadable α
  | some a => .ok a
  | none => .error .malformed

mutual
/-- A datum at the start of a text, and what follows it. The depth is the nesting that is left; the fuel, twice
the number of characters, is never used up. -/
def readValue : Nat → Nat → List Char → Except Unreadable (Datum × List Char)
  | 0, _, _ => .error .malformed
  | fuel + 1, depth, cs =>
    match skipBlanks cs with
    | '"' :: rest => do
      let (s, rest) ← read (readText fuel [] rest)
      return (.str s, rest)
    | '[' :: rest =>
      match depth, skipBlanks rest with
      | 0, _ => .error .tooDeep
      | _ + 1, ']' :: rest => .ok (.arr [], rest)
      | depth + 1, rest => readItems fuel depth [] rest
    | '\x7b' :: rest =>
      match depth, skipBlanks rest with
      | 0, _ => .error .tooDeep
      | _ + 1, '\x7d' :: rest => .ok (.obj [], rest)
      | depth + 1, rest => readFields fuel depth [] rest
    | 't' :: 'r' :: 'u' :: 'e' :: rest => .ok (.bool true, rest)
    | 'f' :: 'a' :: 'l' :: 's' :: 'e' :: rest => .ok (.bool false, rest)
    | 'n' :: 'u' :: 'l' :: 'l' :: rest => .ok (.null, rest)
    | 'N' :: 'a' :: 'N' :: rest => .ok (.float (0.0 / 0.0), rest)
    | cs =>
      match infinity? cs with
      | some found => .ok found
      | none => read (readNumber cs)

/-- The items of an array up to its end. -/
def readItems : Nat → Nat → List Datum → List Char → Except Unreadable (Datum × List Char)
  | 0, _, _, _ => .error .malformed
  | fuel + 1, depth, acc, cs => do
    let (d, rest) ← readValue fuel depth cs
    match skipBlanks rest with
    | ',' :: rest => readItems fuel depth (d :: acc) rest
    | ']' :: rest => return (.arr (d :: acc).reverse, rest)
    | _ => throw .malformed

/-- The fields of an object up to its end; a later field replaces an earlier one of its key. -/
def readFields : Nat → Nat → Table Datum → List Char → Except Unreadable (Datum × List Char)
  | 0, _, _, _ => .error .malformed
  | fuel + 1, depth, acc, cs =>
    match skipBlanks cs with
    | '"' :: rest => do
      let (key, rest) ← read (readText fuel [] rest)
      match skipBlanks rest with
      | ':' :: rest =>
        let (d, rest) ← readValue fuel depth rest
        let acc := acc.set key d
        match skipBlanks rest with
        | ',' :: rest => readFields fuel depth acc rest
        | '\x7d' :: rest => return (.obj acc, rest)
        | _ => throw .malformed
      | _ => throw .malformed
    | _ => .error .malformed
end

/-- The datum that a whole text stands for, nested no deeper than a number. -/
def ofText (s : String) (depth : Nat) : Except Unreadable Datum := do
  let cs := s.toList
  let (d, rest) ← readValue (2 * cs.length + 2) depth cs
  if (skipBlanks rest).isEmpty then return d else throw .malformed

end Treeworks.Datum
