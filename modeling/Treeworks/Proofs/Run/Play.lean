import Mathlib.Logic.Basic
import Treeworks.Proofs.Run.History

/-! Sequences of moves that can be computed, and checked for whether each move could come. -/
namespace Treeworks

namespace Runner

instance decidableAdmits (r : Runner) (steps : Nat → List Nat) : (m : Move) → Decidable (r.Admits steps m)
  | .start ware inputs done => isTrue (.start ware inputs done)
  | .found k =>
    match hs : r.stack with
    | [] => isFalse (by rintro ⟨⟩; simp_all)
    | a :: rest =>
      decidable_of_iff (a.wait = .seeking ∧ k = (steps (r.run a.run).ware)[(r.run a.run).index]?) ⟨by
        rintro ⟨hw, rfl⟩
        exact .found hs hw, by
        rintro ⟨⟩
        simp_all⟩
  | .next t e =>
    decidable_of_iff (t < r.tickets.size ∧ e ≠ some .null) ⟨fun h => .next h.1 h.2, by
      rintro ⟨⟩
      exact ⟨‹_›, ‹_›⟩⟩
  | .settled t future e =>
    decidable_of_iff (t < r.tickets.size ∧ e ≠ some .null) ⟨fun h => .settled future h.1 h.2, by
      rintro ⟨⟩
      exact ⟨‹_›, ‹_›⟩⟩
  | .returned v awaitable =>
    match hs : r.stack with
    | [] => isFalse (by rintro ⟨⟩; simp_all)
    | a :: rest =>
      decidable_of_iff (a.wait ≠ .seeking) ⟨fun h => .returned v awaitable hs h, by
        rintro ⟨⟩
        simp_all⟩
  | .raised e ordinary =>
    match hs : r.stack with
    | [] => isFalse (by rintro ⟨⟩; simp_all)
    | a :: rest =>
      decidable_of_iff (a.wait ≠ .seeking ∧ e ≠ .null) ⟨fun h => .raised ordinary hs h.1 h.2, by
        rintro ⟨⟩
        simp_all⟩
  | .watching future =>
    match hs : r.stack with
    | [] => isFalse (by rintro ⟨⟩; simp_all)
    | ⟨_, _, .settling _⟩ :: _ => isTrue (.watching future hs rfl)
    | ⟨_, _, .seeking⟩ :: _ | ⟨_, _, .step _⟩ :: _ | ⟨_, _, .failed⟩ :: _ | ⟨_, _, .finished⟩ :: _ =>
      isFalse (by rintro ⟨⟩; simp_all)

/-- The runner after a sequence of moves, and what has happened until then. -/
def play (r : Runner) (τ : History) : List Move → Runner × History
  | [] => (r, τ)
  | m :: ms => (r.react m).1.play (τ ++ r.deeds m) ms

/-- Each move of a sequence can come when it does. -/
def Plays (r : Runner) (base : Nat → List Nat) (τ : History) : List Move → Prop
  | [] => True
  | m :: ms => r.Admits (τ.registry base) m ∧ (r.react m).1.Plays base (τ ++ r.deeds m) ms

instance decidablePlays (r : Runner) (base : Nat → List Nat) (τ : History) :
    (ms : List Move) → Decidable (r.Plays base τ ms)
  | [] => isTrue trivial
  | m :: ms =>
    have := decidablePlays (r.react m).1 base (τ ++ r.deeds m) ms
    inferInstanceAs (Decidable (_ ∧ _))

end Runner

/-- A sequence of moves that can come leads to a runner that can come about. -/
theorem Reached.play {base : Nat → List Nat} {r : Runner} {τ : History} {ms : List Move}
    (h : Reached base r τ) (hms : r.Plays base τ ms) : Reached base (r.play τ ms).1 (r.play τ ms).2 := by
  induction ms generalizing r τ with
  | nil => exact h
  | cons m ms ih =>
    obtain ⟨hm, hrest⟩ := hms
    exact ih (h.move hm) hrest

end Treeworks
