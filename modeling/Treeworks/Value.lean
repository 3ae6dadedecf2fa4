import Treeworks.Category
import Treeworks.Decimal
import Treeworks.Table

/-! The values that scripts and processors handle. Objects live in a store; a value names one by
its kind and its place in the store's table of that kind, so equal values are the same object. -/
namespace Treeworks

/-- The library's own functions that are handed around as values. -/
inductive Hook
  | bail
  | parseStage
  | runStage
  | compileStage
  | finish (passage future : Nat)
  deriving DecidableEq, Inhabited

/-- A value: a scalar, or the name of an object. Classes that no script defines go by their names. A slot is
the place that a class gives to an attribute of its instances; a trace tells where an error was raised. -/
inductive Value
  | null
  | bool (b : Bool)
  | int (n : Int)
  | float (x : Float)
  | str (s : String)
  | spanId (n : Nat)
  | category (c : Category)
  | list (i : Nat)
  | dict (i : Nat)
  | tuple (i : Nat)
  | set (i : Nat)
  | record (i : Nat)
  | view (i : Nat)
  | point (i : Nat)
  | fault (i : Nat)
  | context (i : Nat)
  | file (i : Nat)
  | function (i : Nat)
  | hook (h : Hook)
  | next (ticket : Nat)
  | coroutine (i : Nat)
  | awaitable (coroutine : Nat)
  | future (i : Nat)
  | type (i : Nat)
  | native (name : String)
  | worker (i : Nat)
  | processor (i : Nat)
  | ware (i : Nat)
  | step (i : Nat)
  | passage (i : Nat)
  | span (i : Nat)
  | token (i : Nat)
  | slot (type : Nat) (name : String)
  | trace (fault : Nat)
  deriving DecidableEq, Inhabited

namespace Value

/-- Scalars have no identity of their own. -/
def isScalar : Value → Bool
  | .null | .bool _ | .int _ | .float _ | .str _ | .spanId _ | .category _ => true
  | _ => false

/-- Whether a value can be awaited. -/
def isAwaitable : Value → Bool
  | .coroutine _ | .awaitable _ | .future _ => true
  | _ => false

/-- Whether a value is an error object. -/
def isFault : Value → Bool
  | .fault _ => true
  | _ => false

/-- Whether a value is a file. -/
def isFile : Value → Bool
  | .file _ => true
  | _ => false

/-- Whether a value is a text. -/
def isText : Value → Bool
  | .str _ | .category _ | .spanId _ => true
  | _ => false

/-- The whole number that a truth value or a whole number counts as. -/
def whole? : Value → Option Int
  | .bool b => some (if b then 1 else 0)
  | .int n => some n
  | _ => none

/-- Whether two values are the same key: numbers of all kinds by their value, all else as it is. -/
def sameKey (a b : Value) : Bool :=
  match a, b with
  | .float x, .float y => x == y
  | .float x, b => b.whole?.any (Decimal.isWhole x)
  | a, .float y => a.whole?.any (Decimal.isWhole y)
  | a, b =>
    match a.whole?, b.whole? with
    | some m, some n => m = n
    | _, _ => a = b

/-- A key as it is written among the fields of an object. -/
def keyText : Value → String
  | .null => "null"
  | .bool b => if b then "true" else "false"
  | .int n => toString n
  | .float x => Decimal.literal x
  | .str s => s
  | _ => ""

end Value

/-- Entries in the order in which their keys first came; no two keys are the same. -/
abbrev Entries := List (Value × Value)

namespace Entries

/-- The entry under a key, if there is one. -/
def get? : Entries → Value → Option Value
  | [], _ => none
  | (k, v) :: rest, key => if k.sameKey key then some v else get? rest key

/-- The entry under a text. -/
def named? (t : Entries) (name : String) : Option Value := t.get? (.str name)

/-- The entry under a text; null if there is none. -/
def named (t : Entries) (name : String) : Value := (t.named? name).getD .null

/-- The keys, in order. -/
def keys (t : Entries) : List Value := t.map (·.1)

/-- Writes an entry: in place if the key is there, else at the end. -/
def set : Entries → Value → Value → Entries
  | [], key, value => [(key, value)]
  | (k, v) :: rest, key, value =>
    if k.sameKey key then (k, value) :: rest else (k, v) :: set rest key value

/-- Writes the entries of the second mapping into the first, one after the other. -/
def merge (t u : Entries) : Entries := u.foldl (fun t e => t.set e.1 e.2) t

/-- The entries of a table, whose keys are texts. -/
def ofTable (t : Table Value) : Entries := t.map fun e => (.str e.1, e.2)

end Entries
end Treeworks
