/-! Tables that keep their entries in the order in which the keys first came. -/
namespace Treeworks

/-- Entries by key; a key occurs once and keeps its first place. -/
abbrev Table (α : Type) := List (String × α)

namespace Table
variable {α β : Type}

/-- The entry under a key, if there is one. -/
def get? : Table α → String → Option α
  | [], _ => none
  | (k, v) :: rest, key => if k = key then some v else get? rest key

/-- Whether a key has an entry. -/
def has (t : Table α) (key : String) : Bool := (t.get? key).isSome

/-- The keys, in order. -/
def keys (t : Table α) : List String := t.map (·.1)

/-- Writes an entry: in place if the key is there, else at the end. -/
def set : Table α → String → α → Table α
  | [], key, value => [(key, value)]
  | (k, v) :: rest, key, value =>
    if k = key then (k, value) :: rest else (k, v) :: set rest key value

/-- Writes the entries of the second table into the first, one after the other. -/
def merge (t u : Table α) : Table α := u.foldl (fun t e => t.set e.1 e.2) t

/-- Adds the entries of the second table whose keys the first does not have. -/
def fill (t u : Table α) : Table α :=
  u.foldl (fun t e => if t.has e.1 then t else t.set e.1 e.2) t

theorem get?_set (t : Table α) (key : String) (value : α) (k : String) :
    (t.set key value).get? k = if key = k then some value else t.get? k := by
  induction t with
  | nil => simp [set, get?]
  | cons e rest ih =>
    obtain ⟨k', v'⟩ := e
    by_cases h : k' = key
    · subst h
      by_cases hk : k' = k <;> simp [set, get?, hk]
    · by_cases hk : k' = k
      · subst hk
        simp [set, get?, h, Ne.symm h]
      · simp [set, get?, h, hk, ih]

end Table
end Treeworks
