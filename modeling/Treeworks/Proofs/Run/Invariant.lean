import Treeworks.Proofs.Run.Ledger

/-! The invariant of a runner and its history. A run has one token: it is with the last invoked step as
long as that has not completed, with the loop over the steps after that, and gone once the run has reported. -/
namespace Treeworks

/-- What may happen next after a history: a step is invoked when those before it have completed without an
error, and a callback is called once, with the error of the last step or because no step is left. -/
def Fits (base : Nat → List Nat) (α : History) : Deed → Prop
  | .invoked i t k _ => ∃ w inputs done, .started i w inputs done ∈ α ∧ α.reports i = [] ∧ α.Cleared i ∧
      t ∉ α.tickets i ∧ α.invokedSteps i ++ [k] <+: α.registry base w
  | .reported i d args => ∃ w inputs done, .started i w inputs done ∈ α ∧ α.reports i = [] ∧ d = done ∧
      ((args = .null :: inputs ∧ α.Cleared i ∧ α.invokedSteps i = α.registry base w) ∨
        ∃ earlier t k e, args = [e] ∧ e ≠ .null ∧ α.invocations i = earlier ++ [(t, k)] ∧
          α.firstCompletion t = some (some e))
  | _ => True

/-- Each deed of a history fits what happened before it. -/
def Lawful (base : Nat → List Nat) (τ : History) : Prop :=
  ∀ α x β, τ = α ++ x :: β → Fits base α x

theorem Lawful.nil (base : Nat → List Nat) : Lawful base [] := by
  intro α x β h
  simp at h

theorem Lawful.snoc {base : Nat → List Nat} {τ : History} {x : Deed} (h : Lawful base τ)
    (hx : Fits base τ x) : Lawful base (τ ++ [x]) := by
  intro α y β he
  rcases List.eq_nil_or_concat β with rfl | ⟨γ, z, rfl⟩
  · obtain ⟨rfl, hxy⟩ := List.append_inj' he rfl
    cases hxy
    exact hx
  · rw [List.concat_eq_append, ← List.cons_append, ← List.append_assoc] at he
    obtain ⟨rfl, -⟩ := List.append_inj' he rfl
    exact h α y γ rfl

namespace Runner

/-- A run waits for what stands at its index. -/
def Seeks (r : Runner) (i : Nat) : Prop := ∃ a ∈ r.stack, a.run = i ∧ a.wait = .seeking

/-- The activations that drive a run. -/
def drivers (r : Runner) (i : Nat) : Nat := r.stack.countP fun a => a.drives && a.run == i

/-- Where the token of a run is. -/
inductive Phase (r : Runner) (τ : History) (i : Nat) : Prop
  | pending (earlier : List (Nat × Nat)) (t k : Nat) (unreported : τ.reports i = [])
      (idle : (r.run i).ready = false) (settled : ¬ r.Seeks i) (last : τ.invocations i = earlier ++ [(t, k)])
      (cleared : ∀ x ∈ earlier, τ.firstCompletion x.1 = some none) (open_ : τ.firstCompletion t = none)
  | going (unreported : τ.reports i = []) (cleared : τ.Cleared i)
      (token : (r.run i).ready = true ↔ ¬ r.Seeks i)
  | ended (report : Value × List Value) (reported : τ.reports i = [report])
      (idle : (r.run i).ready = false) (settled : ¬ r.Seeks i)
      (completed : ∀ t ∈ τ.tickets i, (τ.firstCompletion t).isSome)

/-- The tables of a runner agree with its history. The driver of a run can be held, which means that its
activation has been taken off the stack and not yet been put back. -/
structure Tables (r : Runner) (base : Nat → List Nat) (τ : History) (held : Option Nat) : Prop where
  run_lt : ∀ a ∈ r.stack, a.run < r.runs.size
  drives : ∀ a ∈ r.stack, a.wait ≠ .failed → a.drives = true
  waits : ∀ a ∈ r.stack, ∀ t, a.wait = .step t ∨ a.wait = .settling t →
    t < r.tickets.size ∧ (r.ticket t).run = a.run
  told : ∀ a ∈ r.stack, a.wait = .failed ∨ a.wait = .finished → τ.reports a.run ≠ []
  drivers_eq : ∀ i, r.drivers i + (if held = some i then 1 else 0) = if (r.run i).driving then 1 else 0
  held_lt : ∀ i, held = some i → i < r.runs.size
  ticket : ∀ t < r.tickets.size, (r.ticket t).run < r.runs.size ∧
    (t, (r.ticket t).step) ∈ τ.invocations (r.ticket t).run ∧
    (r.ticket t).called = (τ.firstCompletion t).isSome
  fresh : ∀ t, r.tickets.size ≤ t → τ.firstCompletion t = none
  invocation : ∀ i, ∀ x ∈ τ.invocations i, x.1 < r.tickets.size ∧ (r.ticket x.1).run = i
  nodup : ∀ i, (τ.tickets i).Nodup
  unreported : ∀ i, r.runs.size ≤ i → τ.reports i = []
  started : ∀ i w inputs done, .started i w inputs done ∈ τ ↔
    i < r.runs.size ∧ (r.run i).ware = w ∧ (r.run i).inputs = inputs ∧ (r.run i).done = done
  steps : ∀ i < r.runs.size, (r.run i).index ≤ (τ.registry base (r.run i).ware).length ∧
    τ.invokedSteps i = (τ.registry base (r.run i).ware).take (r.run i).index

/-- The invariant: the tables agree, every run has its token in one place, and the history is lawful. -/
structure Consistent (r : Runner) (base : Nat → List Nat) (τ : History) (held : Option Nat) : Prop
    extends r.Tables base τ held where
  phase : ∀ i < r.runs.size, r.Phase τ i
  lawful : Lawful base τ

end Runner
end Treeworks
