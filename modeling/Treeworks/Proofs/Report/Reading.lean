import Treeworks.Proofs.Slot.Calls
import Treeworks.Proofs.Lineage.Derived

/-! What is read without a request: the attributes of values that are neither classes nor made by classes of a script, and
the texts of scalars. -/
namespace Treeworks

/-- Values whose attributes no class of a script has a say in. -/
def Value.isDirect : Value → Bool
  | .worker _ | .processor _ | .type _ => false
  | _ => true

namespace Work
variable {m : Machine} {v w : Value} {name : String}

/-! ### Attributes -/

theorem instance?_of_isDirect (hv : v.isDirect = true) (s : Store) : s.instance? v = none := by
  cases v <;> first
    | rfl
    | cases hv

theorem gives_accessor_of_isDirect (hv : v.isDirect = true) (name method : String) (m : Machine) :
    (accessor? v name method).Gives m none m := by
  refine (gives_store m).bind fun σ => ?_
  cases v <;> first
    | rfl
    | cases hv

/-- What stands on a value under a name is the method that is called by that name. -/
theorem method_of_attr? (hv : v.isDirect = true) (h : m.store.attr? v name = some w) :
    m.store.method v name = .ok (.value w []) := by
  have hattr : m.store.attr v name = .ok w := by
    rw [Store.attr, h]
  unfold Store.method
  cases v <;> first
    | exact absurd hv Bool.false_ne_true
    | (simp only [h, hattr, Option.isNone_some, Bool.false_and, Bool.false_eq_true, if_false]; rfl)

theorem gives_found_of_isDirect (hv : v.isDirect = true) (h : m.store.attr? v name = some w) :
    (found? v name).Gives m (some w) m := by
  have hread : (readValue? v name).Gives m none m :=
    (gives_store m).bind ((gives_accessor_of_isDirect hv _ _ m).bind fun _ => rfl)
  refine hread.bind ((gives_store m).bind fun σ => ?_)
  rw [h]
  dsimp only
  rw [method_of_attr? hv h]
  rfl

theorem gives_attr_of_isDirect (hv : v.isDirect = true) (h : m.store.attr? v name = some w) :
    (attr v name).Gives m w m := by
  intro σ
  unfold attr
  rw [(gives_special_of_instance? (instance?_of_isDirect hv _) _).bind_eq]
  dsimp only
  rw [(gives_found_of_isDirect hv h).attempt.bind_eq]
  rfl

theorem not_lacks_of_attr? (h : m.store.attr? v name = some w) : m.store.lacks v name = false := by
  unfold Store.lacks
  cases v <;> simp [h]

theorem gives_attr?_of_isDirect (hv : v.isDirect = true) (h : m.store.attr? v name = some w) :
    (attr? v name).Gives m (some w) m := by
  intro σ
  unfold attr?
  rw [(gives_query _ m).bind_eq, not_lacks_of_attr? h, if_neg Bool.false_ne_true]
  unfold orNone
  rw [(gives_attr_of_isDirect hv h).attempt.bind_eq]
  rfl

theorem gives_attrOrNull_of_isDirect (hv : v.isDirect = true) (h : m.store.attr? v name = some w) :
    (attrOrNull v name).Gives m w m :=
  (gives_attr?_of_isDirect hv h).bind (gives_pure _ m)

/-! ### Texts -/

/-- The text of a scalar is told without a request, and is the same everywhere and within any other text. -/
theorem exists_formattedAt {v : Value} (h : v.isScalar = true) : ∃ t, ∀ fuel m, (formattedAt (fuel + 3) v).Gives m t m := by
  cases v with
  | null => exact ⟨"None", fun _ _ _ => rfl⟩
  | bool b => exact ⟨if b then "True" else "False", fun _ _ _ => by cases b <;> rfl⟩
  | int n => exact ⟨toString n, fun _ _ _ => rfl⟩
  | float x => exact ⟨Decimal.text x, fun _ _ _ => rfl⟩
  | str t => exact ⟨t, fun _ _ _ => rfl⟩
  | spanId n => exact ⟨"<" ++ "str" ++ ">", fun _ _ _ => rfl⟩
  | category c => exact ⟨"ErrorCategory." ++ c.name, fun _ _ _ => rfl⟩
  | _ => cases h

/-- Whether a scalar counts as true does not depend on the store. -/
theorem truthy_of_isScalar {v : Value} (h : v.isScalar = true) (s s' : Store) : s.truthy v = s'.truthy v := by
  cases v <;> first
    | rfl
    | cases h

/-- A point of scalars has a text. -/
theorem exists_pointText {p : Point} (hline : p.line.isScalar = true) (hcolumn : p.column.isScalar = true) :
    ∃ t, ∀ m, (pointText p).Gives m t m := by
  have hpart {v : Value} (hv : v.isScalar = true) :
      ∃ t, ∀ m, (do formatted (← trueOr v (.int 1)) : Work String).Gives m t m := by
    let w := if Store.truthy default v then v else .int 1
    have hw : w.isScalar = true := by
      unfold w
      split
      · exact hv
      · rfl
    obtain ⟨t, ht⟩ := exists_formattedAt hw
    refine ⟨t, fun m => (gives_trueOr_of_isScalar hv _ m).bind ?_⟩
    rw [truthy_of_isScalar hv m.store default]
    exact ht 947 m
  obtain ⟨line, hl⟩ := hpart hline
  obtain ⟨column, hc⟩ := hpart hcolumn
  refine ⟨line ++ ":" ++ column, fun m => ?_⟩
  unfold pointText
  rw [← bind_assoc]
  refine (hl m).bind ?_
  rw [← bind_assoc]
  exact (hc m).bind (gives_pure _ m)

end Work
end Treeworks
