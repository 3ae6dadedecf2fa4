import Treeworks.Table
import Treeworks.Decimal
import Treeworks.Text.Quoted

/-! Plain data, as scripts are written in it and answers are given in it. -/
namespace Treeworks

/-- A datum; objects keep the order of their keys. -/
inductive Datum
  | null
  | bool (b : Bool)
  | int (n : Int)
  | float (x : Float)
  | str (s : String)
  | arr (items : List Datum)
  | obj (fields : List (String × Datum))
  deriving Inhabited

namespace Datum

/-- The spelling of one character in a text literal that uses ASCII alone. -/
def escaped (c : Char) : String :=
  let n := c.toNat
  if c = '"' then "\\\""
  else if c = '\\' then "\\\\"
  else if c = '\n' then "\\n"
  else if c = '\r' then "\\r"
  else if c = '\t' then "\\t"
  else if n = 8 then "\\b"
  else if n = 12 then "\\f"
  else if 0x20 ≤ n && n < 0x7f then String.singleton c
  else if n < 0x10000 then "\\u" ++ Text.hexadecimal 4 n
  else
    let m := n - 0x10000
    "\\u" ++ Text.hexadecimal 4 (0xd800 + m / 0x400) ++ "\\u" ++ Text.hexadecimal 4 (0xdc00 + m % 0x400)

/-- The spelling of one symbol in a text literal. -/
def escapedSymbol : Text.Symbol → String
  | .char c => escaped c
  | .half unit => "\\u" ++ Text.hexadecimal 4 unit

/-- A text literal. -/
def literal (s : String) : String :=
  "\"" ++ String.join ((Text.symbols s).map escapedSymbol) ++ "\""

mutual
/-- The text of a datum on one line. -/
def render : Datum → String
  | .null => "null"
  | .bool true => "true"
  | .bool false => "false"
  | .int n => toString n
  | .float x => Decimal.literal x
  | .str s => literal s
  | .arr items => "[" ++ ", ".intercalate (renderItems items) ++ "]"
  | .obj fields => "\x7b" ++ ", ".intercalate (renderFields fields) ++ "\x7d"

/-- The texts of the items of an array. -/
def renderItems : List Datum → List String
  | [] => []
  | d :: rest => render d :: renderItems rest

/-- The texts of the fields of an object. -/
def renderFields : List (String × Datum) → List String
  | [] => []
  | (key, d) :: rest => (literal key ++ ": " ++ render d) :: renderFields rest
end

/-- Data in the order of their texts. -/
def sorted (items : List Datum) : List Datum :=
  items.mergeSort fun a b => render a ≤ render b

end Datum
end Treeworks
