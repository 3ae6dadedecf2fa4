import Treeworks.Failure

/-! Elements of sets and keys of mappings: when two are the same, and the places that indices name. -/
namespace Treeworks.Store

/-- Whether two values are the same element: numbers by value, tuples and points part by part, all
else as it is. -/
def sameElement (s : Store) : Nat → Value → Value → Bool
  | 0, _, _ => false
  | fuel + 1, a, b =>
    match a, b with
    | .tuple i, .tuple j =>
      (s.tuple i).length = (s.tuple j).length &&
        ((s.tuple i).zip (s.tuple j)).all fun e => sameElement s fuel e.1 e.2
    | .point i, .point j =>
      sameElement s fuel (s.point i).line (s.point j).line &&
        sameElement s fuel (s.point i).column (s.point j).column
    | a, b => a.sameKey b

/-- The nesting up to which elements are compared. -/
def elementDepth : Nat := 900

/-- The entry under a key. -/
def valueAt? (s : Store) (t : Entries) (key : Value) : Option Value :=
  (t.find? fun e => s.sameElement elementDepth e.1 key).map (·.2)

/-- Writes an entry: in place if its key is there, else at the end. -/
def setIn (s : Store) : Entries → Value → Value → Entries
  | [], key, value => [(key, value)]
  | (k, v) :: rest, key, value =>
    if s.sameElement elementDepth k key then (k, value) :: rest else (k, v) :: setIn s rest key value

/-- The place that an index names in a list; negative ones count from the end. -/
def place? (length : Nat) (i : Int) : Option Nat :=
  let j := if i < 0 then i + length else i
  if 0 ≤ j && j < length then some j.toNat else none

/-- The place that a key names in a list of some length. It has to be a whole number. -/
def placeOf (s : Store) (length : Nat) (key : Value) : Except Failure Nat :=
  match key.whole? with
  | none => .error (.notIndex (s.typeName key))
  | some n =>
    match place? length n with
    | some j => .ok j
    | none => .error .outOfRange

end Treeworks.Store
