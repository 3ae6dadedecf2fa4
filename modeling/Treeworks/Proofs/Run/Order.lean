import Treeworks.Proofs.Run.Moves
import Treeworks.Proofs.Run.Play

/-! The order of a run. Its steps are invoked as they were registered, each once and one at a time, each
after those before it have completed, and its callback is called at most once, after all of them. -/
namespace Treeworks
variable {base : Nat → List Nat} {r : Runner} {τ : History} {i w : Nat} {inputs : List Value} {done : Value}

namespace History

/-- What happens after a callback was called is no invocation for its run. -/
theorem invocations_eq_nil_of_lawful {α β : History} {d : Value} {args : List Value} (h : Lawful base τ)
    (hτ : τ = α ++ .reported i d args :: β) : β.invocations i = [] := by
  rw [List.eq_nil_iff_forall_not_mem]
  intro x hx
  obtain ⟨y, hy, hxy⟩ := List.mem_filterMap.mp hx
  obtain ⟨γ, δ, rfl⟩ := List.append_of_mem hy
  have hfits : Fits base (α ++ .reported i d args :: γ) y := h _ y δ (by rw [hτ]; simp)
  cases y with
  | invoked j t k args' =>
    obtain rfl : j = i := by
      by_contra hj
      simp [hj] at hxy
    obtain ⟨-, -, -, -, hnone, -⟩ := hfits
    rw [← List.singleton_append, reports_append, reports_append, reports_singleton] at hnone
    simp at hnone
  | registered | started | completed | escaped | reported | refused => simp at hxy

end History

/-- Whether an activation waits for a step to return. -/
def Activation.invokes (a : Activation) (i : Nat) : Bool :=
  match a.wait with
  | .step _ => a.run == i
  | _ => false

/-- At most one step of a run is being invoked: what invokes a step drives its run. -/
theorem Runner.Tables.invokes_le_one (h : r.Tables base τ none) (i : Nat) :
    r.stack.countP (·.invokes i) ≤ 1 := by
  have hle : r.stack.countP (·.invokes i) ≤ r.drivers i := by
    refine List.countP_mono_left fun a ha hinv => ?_
    obtain ⟨j, drives, wait⟩ := a
    cases wait with
    | step t =>
      have hd : drives = true := h.drives _ ha (by simp)
      rw [hd, Bool.true_and]
      exact hinv
    | seeking | settling | failed | finished => cases hinv
  have heq := h.drivers_eq i
  rw [if_neg (by simp)] at heq
  split at heq <;> omega

/-- The order that a run keeps to: its steps are a prefix of the list, each is invoked once and one at a time,
after the first completion of each one before it was none with an error; its callback is called at most once, and
then no step is invoked any more. It is called without an error when all steps of the list have been invoked and
cleared, and with an error when that is the first completion of the last step. -/
structure Orderly (base : Nat → List Nat) (r : Runner) (τ : History) (i w : Nat) (inputs : List Value)
    (done : Value) : Prop where
  steps : τ.invokedSteps i <+: τ.registry base w
  once : (τ.tickets i).Nodup
  single : r.stack.countP (·.invokes i) ≤ 1
  cleared : ∀ (α : History) t k args β, τ = α ++ .invoked i t k args :: β → α.Cleared i
  reported : (τ.reports i).length ≤ 1
  silent : ∀ (α : History) d args (β : History), τ = α ++ .reported i d args :: β → β.invocations i = []
  complete : ∀ (α : History) d args β, τ = α ++ .reported i d (.null :: args) :: β →
    d = done ∧ args = inputs ∧ α.invokedSteps i = α.registry base w ∧ α.Cleared i
  failed : ∀ (α : History) d e args β, e ≠ .null → τ = α ++ .reported i d (e :: args) :: β →
    d = done ∧ args = [] ∧ ∃ t k, (α.invocations i).getLast? = some (t, k) ∧
      α.firstCompletion t = some (some e)
  told : ∀ (α : History) d β, τ ≠ α ++ .reported i d [] :: β

/-- A run begins once. -/
theorem Runner.Tables.started_unique {held : Option Nat} (h : r.Tables base τ held)
    (hs : .started i w inputs done ∈ τ) {w' : Nat} {inputs' : List Value} {done' : Value}
    (hs' : .started i w' inputs' done' ∈ τ) : w' = w ∧ inputs' = inputs ∧ done' = done := by
  obtain ⟨-, rfl, rfl, rfl⟩ := (h.started i _ _ _).mp hs
  obtain ⟨-, rfl, rfl, rfl⟩ := (h.started i _ _ _).mp hs'
  exact ⟨rfl, rfl, rfl⟩

/-- Every run of every ware keeps to the order, whatever comes from outside and whenever it comes. -/
theorem orderly_of_reached (h : Reached base r τ) (hs : .started i w inputs done ∈ τ) :
    Orderly base r τ i w inputs done := by
  have hr : r.Consistent base τ none := Runner.consistent_of_reached h
  obtain ⟨hi, hware, -, -⟩ := (hr.started i w inputs done).mp hs
  have hsame {α β : History} {x : Deed} (hτ : τ = α ++ x :: β) {w' : Nat} {inputs' : List Value} {done' : Value}
      (hs' : .started i w' inputs' done' ∈ α) : w' = w ∧ inputs' = inputs ∧ done' = done :=
    hr.toTables.started_unique hs (by rw [hτ]; exact List.mem_append_left _ hs')
  -- What holds of the history as a whole is read off the invariant; what holds of each deed off the history before it,
  -- which is lawful.
  refine {
    steps := ?_
    once := hr.nodup i
    single := hr.toTables.invokes_le_one i
    cleared := ?_
    reported := ?_
    silent := fun α d args β hτ => History.invocations_eq_nil_of_lawful hr.lawful hτ
    complete := ?_
    failed := ?_
    told := ?_ }
  · rw [(hr.steps i hi).2, hware]
    exact List.take_prefix _ _
  · intro α t k args β hτ
    obtain ⟨-, -, -, -, -, hcleared, -⟩ := hr.lawful α _ β hτ
    exact hcleared
  · cases hr.phase i hi with
    | pending _ _ _ unreported => simp [unreported]
    | going unreported => simp [unreported]
    | ended _ reported => simp [reported]
  · intro α d args β hτ
    obtain ⟨w', inputs', done', hs', -, hd, ⟨hargs, hcleared, hall⟩ | ⟨_, _, _, e, hargs, he, -⟩⟩ :=
      hr.lawful α _ β hτ
    · obtain ⟨rfl, rfl, rfl⟩ := hsame hτ hs'
      exact ⟨hd, (List.cons.inj hargs).2, hall, hcleared⟩
    · exact absurd (List.cons.inj hargs).1.symm he
  · intro α d e args β he hτ
    obtain ⟨w', inputs', done', hs', -, hd, ⟨hargs, -⟩ | ⟨earlier, t, k, e', hargs, -, hlast, hfirst⟩⟩ :=
      hr.lawful α _ β hτ
    · exact absurd (List.cons.inj hargs).1 he
    · obtain ⟨rfl, rfl⟩ := List.cons.inj hargs
      obtain ⟨-, -, rfl⟩ := hsame hτ hs'
      exact ⟨hd, rfl, t, k, by rw [hlast, List.getLast?_concat], hfirst⟩
  · intro α d β hτ
    obtain ⟨_, _, _, -, -, -, ⟨hargs, -⟩ | ⟨_, _, _, _, hargs, -⟩⟩ := hr.lawful α _ β hτ
    · exact List.cons_ne_nil _ _ hargs.symm
    · exact List.cons_ne_nil _ _ hargs.symm

/-- Two steps over one input: the first takes a continuation, the second does not. -/
def twoSteps : Runner where
  wares := #[.new .null (.list 0) none]
  steps := #[⟨.function 0, .str "first", some 2, some 2, false, []⟩, ⟨.function 1, .str "second", some 1, some 1, false, []⟩]
  runs := #[]
  tickets := #[]
  stack := []

/-- The first step calls its continuation twice, the second raises, and the callback is called. -/
def lateSecond : List Move :=
  [.start 0 [.int 5] (.function 2), .found (some 0), .next 0 none, .next 0 (some (.fault 0)), .returned .null false,
    .found (some 1), .raised (.fault 1) true, .returned .null false, .next 1 none]

/-- The order holds of a run in which a continuation is called more than once and the last step fails. -/
theorem orderly_lateSecond :
    Orderly (fun _ => [0, 1]) (twoSteps.play [] lateSecond).1 (twoSteps.play [] lateSecond).2 0 0 [.int 5]
      (.function 2) :=
  orderly_of_reached ((Reached.begin rfl rfl rfl).play (by decide +kernel)) (by decide +kernel)

end Treeworks
