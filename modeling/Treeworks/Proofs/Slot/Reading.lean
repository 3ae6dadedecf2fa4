import Treeworks.Processing
import Treeworks.Proofs.Frame.Journal

/-! Work that ends without a request, whatever would be answered: looking things up under texts, reading the name of a
processor and the path of a file, and parking a tree in a bag. -/
namespace Treeworks

/-- A key that is a text is the same as no other. -/
theorem Value.sameKey_str (k : Value) (name : String) : k.sameKey (.str name) = decide (k = .str name) := by
  cases k <;> simp [Value.sameKey, Value.whole?]

namespace Entries

theorem named?_cons (k v : Value) (t : Entries) (name : String) :
    Entries.named? ((k, v) :: t) name = if k = .str name then some v else Entries.named? t name := by
  simp [named?, get?, Value.sameKey_str]

theorem named?_set (t : Entries) (name : String) (value : Value) (other : String) :
    (t.set (.str name) value).named? other = if name = other then some value else t.named? other := by
  induction t with
  | nil => simp [set, named?_cons]
  | cons e t ih =>
    obtain ⟨k, v⟩ := e
    unfold set
    rw [Value.sameKey_str]
    by_cases hk : k = .str name
    · subst hk
      by_cases ho : name = other <;> simp [named?_cons, ho]
    · by_cases ho : k = .str other
      · subst ho
        have hne : ¬ name = other := fun h => hk (h ▸ rfl)
        simp [named?_cons, hk, hne]
      · simp [named?_cons, hk, ho, ih]

end Entries

namespace Store

theorem sameElement_str (s : Store) (fuel : Nat) (k : Value) (name : String) :
    s.sameElement (fuel + 1) k (.str name) = decide (k = .str name) := by
  unfold sameElement
  split <;> first | exact Value.sameKey_str _ _ | cases ‹Value.str name = _›

theorem valueAt?_str (s : Store) (t : Entries) (name : String) : s.valueAt? t (.str name) = t.named? name := by
  induction t with
  | nil => rfl
  | cons e t ih =>
    obtain ⟨k, v⟩ := e
    rw [Entries.named?_cons, ← ih]
    unfold valueAt?
    by_cases hk : k = .str name <;> simp [elementDepth, sameElement_str, hk]

theorem setIn_str (s : Store) (t : Entries) (name : String) (value : Value) :
    s.setIn t (.str name) value = t.set (.str name) value := by
  induction t with
  | nil => rfl
  | cons e t ih =>
    obtain ⟨k, v⟩ := e
    simp [setIn, Entries.set, elementDepth, sameElement_str, Value.sameKey_str, ih]

theorem instance?_of_isScalar {v : Value} (h : v.isScalar = true) (s : Store) : s.instance? v = none := by
  cases v <;> first | rfl | cases h

theorem leading_of_isScalar {v : Value} (h : v.isScalar = true) (s : Store) (w : Value) (type : Nat) (name : String) :
    s.leading w type name v = [] := by
  cases v <;> first | rfl | cases h

/-- Whether an instance of a family bears a name, which nothing but a look is needed to read. -/
structure Named (s : Store) (p : Nat) (name : String) : Prop where
  fields_lt : (s.processor p).fields < s.dicts.size
  direct : s.typeAttr? (s.processor p).type "__getattribute__" = none
  offered : ∀ v, s.typeAttr? (s.processor p).type "name" = some v → v.isScalar = true
  named : s.instanceAttr? (s.processor p) "name" = some (.str name)

end Store

namespace Work
variable {α β : Type} {m m' m'' : Machine}

/-- Whether work gives a result and leaves a machine, whatever its requests would be answered. -/
def Gives (w : Work α) (m : Machine) (a : α) (m' : Machine) : Prop := ∀ σ, w σ m = (.done a, m')

theorem Gives.bind {w : Work α} {f : α → Work β} {a : α} {b : β} (hw : w.Gives m a m') (hf : (f a).Gives m' b m'') :
    (w >>= f).Gives m b m'' := by
  intro σ
  rw [bind_eq, hw σ]
  exact hf σ

theorem Gives.bind_eq {w : Work α} {a : α} (hw : w.Gives m a m') (f : α → Work β) (σ : Service) :
    (w >>= f) σ m = f a σ m' := by
  rw [Work.bind_eq, hw σ]

theorem bind_assoc {γ : Type} (w : Work α) (f : α → Work β) (g : β → Work γ) :
    w >>= f >>= g = w >>= fun a => f a >>= g := by
  funext σ m
  rw [Work.bind_eq, Work.bind_eq, Work.bind_eq]
  rcases h : w σ m with ⟨a | e | _, m'⟩ <;> rfl

section
variable {σ : Service} {e : Value}

/-- Where work gives a result, its first part gave one and so did the rest after it. -/
theorem of_bind_done {w : Work α} {f : α → Work β} {b : β} (h : (w >>= f) σ m = (.done b, m'')) :
    ∃ a m', w σ m = (.done a, m') ∧ f a σ m' = (.done b, m'') := by
  rw [bind_eq] at h
  rcases hw : w σ m with ⟨a | e | _, m'⟩ <;> rw [hw] at h
  · exact ⟨a, m', rfl, h⟩
  · cases h
  · cases h

/-- Where work fails, its first part fails, or the rest fails after it. -/
theorem of_bind_raised {w : Work α} {f : α → Work β} (h : (w >>= f) σ m = (.raised e, m'')) :
    w σ m = (.raised e, m'') ∨ ∃ a m', w σ m = (.done a, m') ∧ f a σ m' = (.raised e, m'') := by
  rw [bind_eq] at h
  rcases hw : w σ m with ⟨a | e' | _, m'⟩ <;> rw [hw] at h
  · exact .inr ⟨a, m', rfl, h⟩
  · cases h
    exact .inl rfl
  · cases h

theorem machine_bind (f : Machine → Work β) : (machine >>= f) σ m = f m σ m := rfl

theorem modify_bind (g : Machine → Machine) (f : Unit → Work β) : (modify g >>= f) σ m = f () σ (g m) := rfl

theorem not_fail_done (failure : Failure) {a : α} : (fail failure : Work α) σ m ≠ (.done a, m') := by
  rintro ⟨⟩

end

/-- Whether work gives a result of some kind and changes nothing, whatever its requests would be answered. -/
def Reads (w : Work α) (m : Machine) (P : α → Prop) : Prop := ∃ a, P a ∧ w.Gives m a m

theorem Reads.bind {w : Work α} {f : α → Work β} {P : α → Prop} {Q : β → Prop} (hw : w.Reads m P)
    (hf : ∀ a, P a → (f a).Reads m Q) : (w >>= f).Reads m Q := by
  obtain ⟨a, ha, hgives⟩ := hw
  obtain ⟨b, hb, hrest⟩ := hf a ha
  exact ⟨b, hb, hgives.bind hrest⟩

theorem reads_pure {a : α} {P : α → Prop} (h : P a) (m : Machine) : (pure a : Work α).Reads m P := ⟨a, h, fun _ => rfl⟩

theorem Gives.reads {w : Work α} {a : α} (h : w.Gives m a m) : w.Reads m (· = a) := ⟨a, rfl, h⟩

theorem gives_pure (a : α) (m : Machine) : (pure a : Work α).Gives m a m := fun _ => rfl

theorem gives_store (m : Machine) : store.Gives m m.store m := fun _ => rfl

theorem gives_query (f : Store → α) (m : Machine) : (query f).Gives m (f m.store) m := fun _ => rfl

/-! ### Entries under texts -/

theorem gives_valueUnder (t : Entries) (name : String) (m : Machine) :
    (valueUnder? t (.str name)).Gives m (t.named? name) m := by
  have hkey : (keyAmong? t (.str name)).Gives m ((t.find? fun e => e.1 = .str name).map (·.1)) m := fun _ => rfl
  refine hkey.bind fun σ => ?_
  cases h : t.find? fun e => e.1 = .str name with
  | none => exact congrArg (fun v => (Outcome.done v, m)) (m.store.valueAt?_str t name)
  | some e =>
    obtain ⟨k, v⟩ := e
    obtain rfl : k = .str name := by simpa using List.find?_some h
    exact congrArg (fun v => (Outcome.done v, m)) (m.store.valueAt?_str t name)

theorem gives_setEntry (i : Nat) (name : String) (value : Value) (m : Machine) :
    (setEntry i (.str name) value).Gives m ()
      { m with store := m.store.updateDict i fun t => t.set (.str name) value } := by
  refine (gives_store m).bind ?_
  have hkey : (keyAmong? (m.store.dict i) (.str name)).Gives m
      (((m.store.dict i).find? fun e => e.1 = .str name).map (·.1)) m := fun _ => rfl
  refine hkey.bind fun σ => ?_
  have hname : ((((m.store.dict i).find? fun e => e.1 = .str name).map (·.1)).getD (.str name)) = .str name := by
    cases h : (m.store.dict i).find? fun e => e.1 = .str name with
    | none => rfl
    | some e => simpa using List.find?_some h
  simp only [hname, Store.setIn_str]
  rfl

theorem gives_treeIn (b : Nat) (m : Machine) : (treeIn (.dict b)).Gives m ((m.store.dict b).named "tree") m :=
  (gives_query _ m).bind ((gives_valueUnder _ _ m).bind fun _ => rfl)

/-! ### Scalars -/

theorem gives_special_of_isScalar {v : Value} (h : v.isScalar = true) (name : String) (m : Machine) :
    (special? v name).Gives m none m := by
  refine (gives_store m).bind fun σ => ?_
  rw [Store.instance?_of_isScalar h]
  rfl

theorem gives_truth_of_isScalar {v : Value} (h : v.isScalar = true) (m : Machine) :
    (truth v).Gives m (m.store.truthy v) m := by
  refine (gives_special_of_isScalar h _ m).bind ?_
  cases v <;> first
    | exact (gives_special_of_isScalar h _ m).bind fun _ => rfl
    | exact absurd h Bool.false_ne_true

theorem gives_trueOr_of_isScalar {v : Value} (h : v.isScalar = true) (w : Value) (m : Machine) :
    (trueOr v w).Gives m (if m.store.truthy v then v else w) m := by
  refine (gives_truth_of_isScalar h m).bind fun σ => ?_
  cases m.store.truthy v <;> rfl

theorem gives_formatted_str (fuel : Nat) (t : String) (m : Machine) :
    (formattedAt (fuel + 2) (.str t)).Gives m t m := by
  refine (gives_special_of_isScalar rfl _ m).bind ?_
  exact (gives_store m).bind ((gives_special_of_isScalar rfl _ m).bind fun _ => rfl)

/-! ### Names of processors -/

theorem gives_special_processor {p : Nat} {name : String}
    (h : m.store.typeAttr? (m.store.processor p).type name = none) : (special? (.processor p) name).Gives m none m := by
  refine (gives_store m).bind fun σ => ?_
  dsimp only [Store.instance?]
  rw [h]
  rfl

/-- The name of a processor is read without a request. -/
theorem gives_name {p : Nat} {name : String} (h : m.store.Named p name) :
    (attr (.processor p) "name").Gives m (.str name) m := by
  have haccessor : (accessor? (.processor p) "name" "__get__").Gives m none m := by
    refine (gives_store m).bind fun σ => ?_
    dsimp only [Store.instance?, Option.bind_some]
    cases hv : m.store.typeAttr? (m.store.processor p).type "name" with
    | none => rfl
    | some v => exact gives_special_of_isScalar (h.offered v hv) _ m σ
  have hread : (readValue? (.processor p) "name").Gives m none m :=
    (gives_store m).bind (haccessor.bind fun _ => rfl)
  have hattr : m.store.attr? (.processor p) "name" = some (.str name) := by
    unfold Store.attr?
    rw [show m.store.ownAttr? (.processor p) "name" = some (.str name) from h.named]
  -- What the class offers is no function, so that no method is made of it.
  have hmethod : ∀ f first rest, m.store.method (.processor p) "name" ≠ .ok (.value f (first :: rest)) := by
    intro f first rest hm
    unfold Store.method at hm
    dsimp only at hm
    unfold Store.instanceMethod at hm
    split at hm
    · cases ha : m.store.attr (.processor p) "name" <;> rw [ha] at hm <;> cases hm
    · cases hm
    · rename_i v _ hmember _
      have hv : m.store.typeAttr? (m.store.processor p).type "name" = some v := by
        unfold Store.typeAttr?
        rw [hmember]
      rw [Store.leading_of_isScalar (h.offered v hv)] at hm
      cases hm
    · cases hm
    · cases ha : m.store.attr (.processor p) "name" <;> rw [ha] at hm <;> cases hm
  have hfound : (found? (.processor p) "name").Gives m (some (.str name)) m := by
    refine hread.bind ((gives_store m).bind fun σ => ?_)
    rw [hattr]
    dsimp only
    generalize m.store.method (.processor p) "name" = found at hmethod ⊢
    cases found with
    | error _ => rfl
    | ok method =>
      cases method with
      | value f leading =>
        cases leading with
        | nil => rfl
        | cons first rest => exact absurd rfl (hmethod f first rest)
      | _ => rfl
  refine (gives_special_processor h.direct).bind fun σ => ?_
  dsimp only
  rw [bind_eq]
  unfold attempt
  rw [hfound σ]
  rfl

end Work
end Treeworks
