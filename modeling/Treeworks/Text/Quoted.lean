import Treeworks.Text.Printable
import Treeworks.Text.Symbol

/-! Quoted texts: a text between quotes on one line, with everything else spelled out. -/
namespace Treeworks.Text

/-- A number in lower-case hexadecimal, padded with zeros to a width. -/
def hexadecimal (width n : Nat) : String :=
  let digits := Nat.toDigits 16 n
  String.ofList (List.replicate (width - digits.length) '0' ++ digits)

/-- The spelling of one character inside the given quote. -/
def quoteChar (quote c : Char) : String :=
  if c = quote || c = '\\' then String.ofList ['\\', c]
  else if c = '\t' then "\\t"
  else if c = '\n' then "\\n"
  else if c = '\r' then "\\r"
  else if isPrintable c then String.singleton c
  else if c.toNat < 0x100 then "\\x" ++ hexadecimal 2 c.toNat
  else if c.toNat < 0x10000 then "\\u" ++ hexadecimal 4 c.toNat
  else "\\U" ++ hexadecimal 8 c.toNat

/-- The spelling of one symbol inside the given quote. -/
def quoteSymbol (quote : Char) : Symbol → String
  | .char c => quoteChar quote c
  | .half unit => "\\u" ++ hexadecimal 4 unit

/-- Single quotes serve unless the text has one of them and no double quote. -/
def quoteFor (s : String) : Char :=
  if s.toList.contains '\'' && !s.toList.contains '"' then '"' else '\''

/-- A text in quotes. -/
def quoted (s : String) : String :=
  let quote := quoteFor s
  String.singleton quote ++ String.join ((symbols s).map (quoteSymbol quote)) ++ String.singleton quote

end Treeworks.Text
