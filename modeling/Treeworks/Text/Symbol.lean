/-! Symbols: what a text is made of, which are characters and halves of surrogate pairs that stand alone. A half
is no character, so it is written as a mark and a private character; the mark itself is written twice. Main
statement: the symbols of a text are the ones that it was written with. -/
namespace Treeworks.Text

/-- Whether a code unit is the first half of a pair. -/
def isHigh (unit : Nat) : Bool := 0xd800 ≤ unit && unit < 0xdc00

/-- Whether a code unit is the second half of a pair. -/
def isLow (unit : Nat) : Bool := 0xdc00 ≤ unit && unit < 0xe000

/-- The code point of a pair. -/
def pairPoint (high low : Nat) : Nat := 0x10000 + (high - 0xd800) * 0x400 + (low - 0xdc00)

/-- A character, or half of a pair. -/
inductive Symbol
  | char (c : Char)
  | half (unit : Nat)
  deriving DecidableEq, Inhabited

/-- The last of all code points, by which a half is known. -/
def mark : Char := Char.ofNat 0x10ffff

namespace Symbol

/-- The symbol of a code unit. -/
def ofUnit (unit : Nat) : Symbol :=
  if isHigh unit || isLow unit then .half unit else .char (Char.ofNat unit)

/-- Whether a symbol is a character, or a half within its bounds. -/
def valid : Symbol → Bool
  | .char _ => true
  | .half unit => isHigh unit || isLow unit

/-- The characters that a symbol is written with. -/
def spelling : Symbol → List Char
  | .char c => if c = mark then [mark, mark] else [c]
  | .half unit => [mark, Char.ofNat (0x800 + unit)]

/-- The text of a symbol. -/
def text (x : Symbol) : String := String.ofList x.spelling

/-- The symbol that follows a mark. -/
def ofMarked (c : Char) : Symbol := if c = mark then .char mark else .half (c.toNat - 0x800)

end Symbol

/-- The symbols of some characters. -/
def symbolsOf : List Char → List Symbol
  | [] => []
  | [c] => [.char c]
  | c :: d :: rest =>
    if c = mark then .ofMarked d :: symbolsOf rest else .char c :: symbolsOf (d :: rest)

theorem Symbol.text_ne_empty (x : Symbol) : x.text ≠ "" := by
  cases x with
  | char c => by_cases hc : c = mark <;> simp [text, spelling, hc]
  | half unit => simp [text, spelling]

/-- The characters that symbols are written with. -/
def spell (xs : List Symbol) : List Char := xs.flatMap Symbol.spelling

theorem symbolsOf_spelling_append {x : Symbol} (h : x.valid = true) (cs : List Char) :
    symbolsOf (x.spelling ++ cs) = x :: symbolsOf cs := by
  cases x with
  | char c =>
    by_cases hc : c = mark
    · subst hc
      simp [Symbol.spelling, symbolsOf, Symbol.ofMarked]
    · cases cs <;> simp [Symbol.spelling, hc, symbolsOf]
  | half unit =>
    have hu : 0xd800 ≤ unit ∧ unit < 0xe000 := by
      simp only [Symbol.valid, isHigh, isLow, Bool.or_eq_true, Bool.and_eq_true, decide_eq_true_eq] at h
      omega
    have hn : (Char.ofNat (0x800 + unit)).toNat = 0x800 + unit := by
      rw [Char.ofNat, dif_pos (Or.inr ⟨by omega, by omega⟩)]
      rfl
    have hm : Char.ofNat (0x800 + unit) ≠ mark := by
      intro e
      have : (0x800 + unit) = 0x10ffff := by
        rw [← hn, e]
        rfl
      omega
    simp [Symbol.spelling, symbolsOf, Symbol.ofMarked, hm, hn]

theorem symbolsOf_spell {xs : List Symbol} (h : ∀ x ∈ xs, x.valid = true) : symbolsOf (spell xs) = xs := by
  induction xs with
  | nil => rfl
  | cons x xs ih =>
    rw [spell, List.flatMap_cons, symbolsOf_spelling_append (h x (by simp))]
    exact congrArg _ (ih fun y hy => h y (by simp [hy]))

/-- The symbols of a text. -/
def symbols (s : String) : List Symbol := symbolsOf s.toList

theorem symbols_eq_nil {s : String} : symbols s = [] ↔ s = "" := by
  rw [symbols, ← String.toList_eq_nil_iff]
  fun_cases symbolsOf s.toList <;> simp_all

/-- The text that symbols make. -/
def ofSymbols (xs : List Symbol) : String := String.ofList (spell xs)

/-- The text of a row of characters. -/
def ofChars (cs : List Char) : String := ofSymbols (cs.map .char)

/-- The first symbols of a text. -/
def firstSymbols (n : Nat) (s : String) : String := ofSymbols ((symbols s).take n)

/-- Whether a text holds half of a pair. -/
def hasHalf (s : String) : Bool := (symbols s).any fun x => x matches .half _

end Treeworks.Text
