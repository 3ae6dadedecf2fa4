import Treeworks.Value

/-! Sets, and tables of slots: the order in which the elements of a set stand. An element with a number is put
into the slot that the number's remainder names, or into a free one that is searched from there; a table that
fills up grows. -/
namespace Treeworks

/-- A table of slots, some of which are taken by items with a number each. -/
structure Slots (α : Type) where
  slots : Array (Option (Nat × α))
  taken : Nat
  deriving Inhabited

namespace Slots
variable {α : Type}

/-- An empty table. -/
def empty (size : Nat) : Slots α := ⟨Array.replicate size none, 0⟩

/-- The items, slot by slot. -/
def entries (t : Slots α) : List (Nat × α) := t.slots.toList.filterMap id

/-- The first free slot from a place on, of that one and a few after it. -/
def freeFrom? (t : Slots α) (place : Nat) : Nat → Option Nat
  | 0 => if (t.slots.getD place none).isNone then some place else none
  | near + 1 => if (t.slots.getD place none).isNone then some place else freeFrom? t (place + 1) near

/-- How many slots after a place are looked at: nine, if the table goes on so far. -/
def reach (t : Slots α) (place : Nat) : Nat := if place + 9 < t.slots.size then 9 else 0

/-- The free slot for a number. Each further place depends on more of the number's leading digits. -/
def search (t : Slots α) : Nat → Nat → Nat → Nat
  | 0, place, _ => place
  | fuel + 1, place, rest =>
    match t.freeFrom? place (t.reach place) with
    | some free => free
    | none => search t fuel ((place * 5 + 1 + rest / 32) % t.slots.size) (rest / 32)

/-- Puts an item into the table. -/
def put (t : Slots α) (item : Nat × α) : Slots α :=
  let place := t.search (t.slots.size + 16) (item.1 % t.slots.size) item.1
  ⟨t.slots.set! place (some item), t.taken + 1⟩

/-- The least size, doubled from eight on, that is greater than a number. -/
def sizeAbove (n : Nat) : Nat → Nat → Nat
  | 0, size => size
  | fuel + 1, size => if n < size then size else sizeAbove n fuel (2 * size)

/-- Puts an item into the table, which grows when three fifths of it are taken. -/
def insert (t : Slots α) (item : Nat × α) : Slots α :=
  let t := t.put item
  if t.taken * 5 < (t.slots.size - 1) * 3 then t
  else t.entries.foldl put (empty (sizeAbove (4 * t.taken) (4 * t.taken) 8))

/-- The table of a set that takes over all items at once: as it is if its size is the one that fits them,
else the items are put into one of that size, which is twice as many as there are when the least is too small. -/
def copied (t : Slots α) : Slots α :=
  let size := if t.taken * 5 < 21 then 8 else sizeAbove (2 * t.taken) (2 * t.taken) 8
  if size = t.slots.size then t else t.entries.foldl put (empty size)

end Slots

/-- The elements of a set: those with a number stand in a table of slots, the others as they came. -/
structure Elements where
  table : Slots Value
  others : List Value
  deriving Inhabited

namespace Elements

/-- No elements. -/
def empty : Elements := ⟨.empty 8, []⟩

/-- The elements in the order in which they stand. -/
def toList (e : Elements) : List Value := e.table.entries.map (·.2) ++ e.others

/-- Those elements that can be the same as one with a number, or as one without. -/
def candidates (e : Elements) : Option Nat → List Value
  | some n => (e.table.entries.filter (·.1 = n)).map (·.2)
  | none => e.others

/-- One element more. -/
def add (e : Elements) (number : Option Nat) (v : Value) : Elements :=
  match number with
  | some n => { e with table := e.table.insert (n, v) }
  | none => { e with others := e.others ++ [v] }

/-- The elements of a set that takes over all of another. -/
def copied (e : Elements) : Elements := { e with table := e.table.copied }

end Elements

namespace Value

/-- The prime by which numbers are reduced. -/
def reduction : Nat := Nat.pow 2 61 - 1

/-- The number that a magnitude with a sign stands for. Minus one counts as minus two. -/
def signedNumber (negative : Bool) (n : Nat) : Nat :=
  if !negative || n = 0 then n else Nat.pow 2 64 - (if n = 1 then 2 else n)

/-- The number of an infinity. -/
def infinityNumber : Nat := 314159

/-- The number by which a number is put into a table of slots; equal numbers have the same. -/
def slotNumber? : Value → Option Nat
  | .float x =>
    match Decimal.decode x with
    | some (negative, magnitude) =>
      let power := Nat.pow 2 (magnitude.exponent % 61).toNat
      some (signedNumber negative (magnitude.mantissa * power % reduction))
    | none => if x.isInf then some (signedNumber (x < 0) infinityNumber) else none
  | v => v.whole?.map fun n => signedNumber (n < 0) (n.natAbs % reduction)

/-- The number of a sequence, mixed of the numbers of its parts and their count. -/
def sequenceNumber (numbers : List Nat) : Nat :=
  let mix (acc : UInt64) (n : Nat) : UInt64 :=
    let acc := acc + UInt64.ofNat n * 14029467366897019727
    (acc <<< 31 ||| acc >>> 33) * 11400714785074694791
  let acc := numbers.foldl mix 2870177450012600261
  let acc := acc + (UInt64.ofNat numbers.length ^^^ (2870177450012600261 ^^^ 3527539))
  if acc + 1 = 0 then 1546275796 else acc.toNat

end Value
end Treeworks
