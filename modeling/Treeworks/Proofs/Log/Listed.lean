import Treeworks.Proofs.Slot.Reading

/-! Sets of families by name. Texts are kept as they came and are the same only as themselves, so that making such a set
and looking for a scalar in it asks nobody. -/
namespace Treeworks

/-- Whether a set lists some names and nothing else. -/
structure Elements.Lists (e : Elements) (names : List String) : Prop where
  table : e.table.entries = []
  others : ∀ v, v ∈ e.others ↔ ∃ n ∈ names, v = .str n

namespace Elements

theorem lists_empty : empty.Lists [] where
  table := rfl
  others v := by simp [empty]

/-- A set with a name that it may list already, which is then not added again. -/
theorem Lists.insert {e : Elements} {names : List String} (h : e.Lists names) (t : String) :
    (if .str t ∈ e.others then e else e.add none (.str t)).Lists (names ++ [t]) where
  table := by split <;> exact h.table
  others v := by
    split
    · rename_i ht
      rw [h.others] at ht ⊢
      grind
    · simp only [add, List.mem_append, List.mem_singleton, h.others]
      grind

end Elements

theorem Value.sameKey_str_left (t : String) (v : Value) : (Value.str t).sameKey v = decide (v = .str t) := by
  cases v <;> simp [Value.sameKey, Value.whole?, eq_comm]

namespace Store

theorem sameElement_str_left (s : Store) (fuel : Nat) (t : String) (v : Value) :
    s.sameElement (fuel + 1) (.str t) v = decide (v = .str t) := by
  unfold sameElement
  split <;> first | exact Value.sameKey_str_left _ _ | cases ‹Value.str t = _›

end Store

namespace Work

theorem gives_elementNumber_of_isScalar {v : Value} (h : v.isScalar = true) (m : Machine) :
    (elementNumber v).Gives m v.slotNumber? m := by
  refine (gives_store m).bind ?_
  cases v <;> first
    | exact (gives_special_of_isScalar h _ m).bind fun _ => rfl
    | exact absurd h Bool.false_ne_true

theorem gives_isSame_str (t : String) {v : Value} (h : v.isScalar = true) (m : Machine) :
    (isSame (.str t) v).Gives m (decide (v = .str t)) m := by
  unfold isSame
  by_cases heq : Value.str t = v
  · rw [if_pos heq, decide_eq_true heq.symm]
    exact gives_pure _ m
  · rw [if_neg heq]
    refine (gives_query _ m).bind ?_
    have hrefines : refines m.store v (.str t) = false := rfl
    rw [hrefines]
    refine (gives_special_of_isScalar rfl _ m).bind ((gives_special_of_isScalar h _ m).bind ?_)
    exact (gives_store m).bind fun _ => by rw [Store.elementDepth, Store.sameElement_str_left]; rfl

theorem gives_isAmong_texts {v : Value} (h : v.isScalar = true) (m : Machine) {vs : List Value}
    (hvs : ∀ w ∈ vs, ∃ t, w = .str t) : (isAmong v vs).Gives m (decide (v ∈ vs)) m := by
  induction vs with
  | nil => exact gives_pure _ m
  | cons w vs ih =>
    obtain ⟨t, rfl⟩ := hvs w List.mem_cons_self
    refine (gives_isSame_str t h m).bind ?_
    by_cases heq : v = .str t
    · simpa [heq] using gives_pure true m
    · simpa [heq] using ih fun w hw => hvs w (List.mem_cons_of_mem _ hw)

/-- Whether a scalar is in a set of names. -/
theorem gives_contains {e : Elements} {names : List String} (he : e.Lists names) {v : Value} (h : v.isScalar = true)
    (m : Machine) : (contains e v).Gives m (decide (∃ n ∈ names, v = .str n)) m := by
  refine (gives_elementNumber_of_isScalar h m).bind ?_
  cases hv : v.slotNumber? with
  | some n =>
    have hcandidates : e.candidates (some n) = [] := by simp [Elements.candidates, he.table]
    have hname : ¬∃ t ∈ names, v = .str t := by
      rintro ⟨t, -, rfl⟩
      cases hv
    rw [hcandidates, decide_eq_false hname]
    exact gives_pure _ m
  | none =>
    have hgives := gives_isAmong_texts h m fun w hw => ((he.others w).mp hw).imp fun t ht => ht.2
    simpa only [Elements.candidates, he.others] using hgives

/-- A set that is made of texts lists them. -/
theorem gives_elementsOf_names (names : List String) (m : Machine) :
    ∃ e : Elements, e.Lists names ∧ (elementsOf (names.map .str)).Gives m e m := by
  suffices h : ∀ (e : Elements) (known : List String), e.Lists known →
      ∃ e' : Elements, e'.Lists (known ++ names) ∧ (elementsOf.withAll e (names.map .str)).Gives m e' m from
    h .empty [] Elements.lists_empty
  induction names with
  | nil => exact fun e known he => ⟨e, by rwa [List.append_nil], gives_pure e m⟩
  | cons t names ih =>
    intro e known he
    obtain ⟨e', he', hgives⟩ := ih _ (known ++ [t]) (he.insert t)
    refine ⟨e', by rwa [List.append_assoc] at he', ?_⟩
    refine Gives.bind ?_ hgives
    have hnumber : (elementNumber (.str t)).Gives m none m := gives_elementNumber_of_isScalar rfl m
    refine hnumber.bind ((gives_isAmong_texts rfl m fun w hw => ((he.others w).mp hw).imp fun t ht => ht.2).bind ?_)
    by_cases ht : Value.str t ∈ e.others <;> simpa [Elements.candidates, ht] using gives_pure _ m

end Work
end Treeworks
