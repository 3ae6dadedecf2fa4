import Treeworks.Proofs.Slot.Reading
import Treeworks.Proofs.Frame.Coroutines
import Treeworks.Proofs.Lineage.Slots

/-! Sets keep their elements. The numbers by which elements are kept are words, so every set that is made of values, or
gets one more, fits into its table; and a copy of a set has its elements. -/
namespace Treeworks

/-! ### Numbers are words -/

namespace Value

theorem signedNumber_lt {n : Nat} (negative : Bool) (hn : n < reduction) : signedNumber negative n < 2 ^ 64 := by
  have hreduction : reduction = 2 ^ 61 - 1 := rfl
  have hpow : Nat.pow 2 64 = 2 ^ 64 := rfl
  unfold signedNumber
  split
  · omega
  · rename_i hn'
    have hpos : 0 < n := by
      simp only [Bool.or_eq_true, decide_eq_true_eq, not_or] at hn'
      omega
    rw [hpow]
    split <;> omega

theorem mod_reduction_lt (n : Nat) : n % reduction < reduction := Nat.mod_lt _ (by decide)

theorem slotNumber?_lt {v : Value} {n : Nat} (h : v.slotNumber? = some n) : n < 2 ^ 64 := by
  have hwhole (i : Int) : signedNumber (i < 0) (i.natAbs % reduction) < 2 ^ 64 := signedNumber_lt _ (mod_reduction_lt _)
  unfold slotNumber? at h
  split at h
  · split at h
    · cases h
      exact signedNumber_lt _ (mod_reduction_lt _)
    · split at h
      · cases h
        exact signedNumber_lt _ (by decide)
      · cases h
  · obtain ⟨i, -, rfl⟩ := Option.map_eq_some_iff.mp h
    exact hwhole i

theorem sequenceNumber_lt (numbers : List Nat) : sequenceNumber numbers < 2 ^ 64 := by
  unfold sequenceNumber
  dsimp only
  split
  · decide
  · exact UInt64.toNat_lt _

end Value

/-! ### Elements -/

namespace Elements
variable {e : Elements}

/-- Whether the elements that have a number fit into their table. -/
def Fits (e : Elements) : Prop := e.table.Fits

theorem fits_empty : empty.Fits := Slots.fits_empty

theorem Fits.add (h : e.Fits) {number : Option Nat} (hnumber : ∀ n, number = some n → n < 2 ^ 64) (v : Value) :
    (e.add number v).Fits := by
  cases number with
  | none => exact h
  | some n => exact (Slots.Fits.insert h (hnumber n rfl)).1

theorem Fits.copied (h : e.Fits) : e.copied.Fits := (Slots.Fits.copied h).1

/-- A copy of a set has the same elements. -/
theorem Fits.toList_copied (h : e.Fits) : e.copied.toList.Perm e.toList :=
  ((Slots.Fits.copied h).2.map fun item : Nat × Value => item.2).append_right e.others

end Elements

namespace Work

theorem yields_fail {α : Type} {P : α → Prop} (failure : Failure) : (fail failure : Work α).Yields P := by
  intro σ m a m' h
  cases h

theorem yields_failFor {α : Type} {P : α → Prop} (v : Value) (failure : String → Failure) :
    (failFor v failure : Work α).Yields P := yields_bind fun _ => yields_fail _

theorem yields_numberBy (m : Value × List Value) : (numberBy m).Yields (· < 2 ^ 64) := by
  unfold numberBy
  refine yields_bind fun v => ?_
  split
  · split
    · exact yields_pure (by decide)
    · split
      · refine yields_pure ?_
        have hpow : Int.pow 2 64 = 2 ^ 64 := rfl
        rw [hpow]
        omega
      · exact yields_pure (Value.signedNumber_lt _ (Value.mod_reduction_lt _))
  · exact yields_fail _

theorem yields_numberOf (fuel : Nat) (v : Value) : (numberOf fuel v).Yields fun number => ∀ n, number = some n → n < 2 ^ 64 := by
  cases fuel with
  | zero => exact yields_fail _
  | succ fuel =>
    -- The number of a sequence is a word whatever the numbers of its parts are.
    have hsequence (numbers : List (Option Nat)) :
        ∀ n, (numbers.mapM id).map Value.sequenceNumber = some n → n < 2 ^ 64 := by
      intro n hn
      obtain ⟨ns, -, rfl⟩ := Option.map_eq_some_iff.mp hn
      exact Value.sequenceNumber_lt ns
    unfold numberOf
    refine yields_bind fun s => ?_
    split
    all_goals try exact yields_failFor _ _
    · exact yields_bind fun numbers => yields_pure (hsequence numbers)
    · exact yields_bind fun numbers => yields_pure (hsequence numbers)
    · refine yields_bind fun method => ?_
      split
      · exact yields_failFor _ _
      · intro σ m number m' h n hn
        obtain ⟨k, m₁, hk, h⟩ := of_bind_done h
        cases h
        cases hn
        exact yields_numberBy _ σ m n _ hk
      · exact yields_pure fun n hn => Value.slotNumber?_lt hn

theorem fits_of_withElement {e : Elements} (h : e.Fits) (v : Value) : (withElement e v).Yields Elements.Fits := by
  intro σ m e' m' he
  obtain ⟨number, m₁, hnumber, he⟩ := of_bind_done he
  obtain ⟨among, m₂, -, he⟩ := of_bind_done he
  cases among with
  | true =>
    cases he
    exact h
  | false =>
    cases he
    exact h.add (yields_numberOf _ v σ m number m₁ hnumber) v

/-- Every set that is made of values fits into its table. -/
theorem fits_of_elementsOf (values : List Value) : (elementsOf values).Yields Elements.Fits := by
  suffices hwith : ∀ {e : Elements}, e.Fits → (elementsOf.withAll e values).Yields Elements.Fits from
    hwith Elements.fits_empty
  induction values with
  | nil => exact fun h => yields_pure h
  | cons v values ih =>
    intro e h σ m e' m' he
    obtain ⟨e₁, m₁, he₁, he⟩ := of_bind_done he
    exact ih (fits_of_withElement h v σ m e₁ m₁ he₁) σ m₁ e' m' he

end Work
end Treeworks
