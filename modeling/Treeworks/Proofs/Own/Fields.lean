import Treeworks.Proofs.Attach.Leaf
import Treeworks.Proofs.Lineage.Derived

/-! Attributes that are read and stored without asking anybody: what instances have of their own, what families offer, and
what a ware does when it is called by name. Where a class offers an inert value, an instance's own attribute is no more than
an entry of its dictionary. -/
namespace Treeworks

/-- Whether a value is neither an instance of a class, which may say how it is read, nor a slot. -/
def Value.isInert : Value → Bool
  | .worker _ | .processor _ | .slot .. => false
  | _ => true

namespace Store
variable {s : Store} {v w : Value} {name : String}

/-- Whether a value that a class offers says neither how it is read there nor how it is written. -/
structure Mute (s : Store) (v : Value) : Prop where
  ne_slot : ∀ type slot, v ≠ .slot type slot
  unread : ∀ x, s.instance? v = some x → s.typeAttr? x.type "__get__" = none
  unwritten : ∀ x, s.instance? v = some x → s.typeAttr? x.type "__set__" = none

theorem mute_of_isInert (h : v.isInert = true) (s : Store) : s.Mute v where
  ne_slot type slot hv := by
    subst hv
    cases h
  unread x hx := by cases v <;> first | exact absurd h Bool.false_ne_true | cases hx
  unwritten x hx := by cases v <;> first | exact absurd h Bool.false_ne_true | cases hx

theorem ne_of_isReserved {other : String} (hname : isReserved name = false) (hother : isReserved other = true) :
    name ≠ other := by
  rintro rfl
  exact absurd (hname.symm.trans hother) (by decide)

/-- Whether a class leaves it to the dictionary of an instance what it has under a name. -/
def Yields (s : Store) (c : Nat) (name : String) : Prop := ∀ v, s.typeAttr? c name = some v → s.Mute v

theorem attr?_field {p : Nat} (hname : isReserved name = false) (hyields : s.Yields (s.processor p).type name)
    (hv : s.field? (s.processor p) name = some v) : s.attr? (.processor p) name = some v := by
  have hown : s.ownAttr? (.processor p) name = some v := by
    show s.instanceAttr? (s.processor p) name = some v
    unfold instanceAttr?
    rw [hv]
    have hplain : ¬ (name = "__class__" ∨ name = "__dict__") := by
      rintro (h | h)
      · exact ne_of_isReserved hname (by decide +kernel) h
      · exact ne_of_isReserved hname (by decide +kernel) h
    cases hoffered : s.typeAttr? (s.processor p).type name with
    | none =>
      dsimp only
      rw [if_neg (by simpa using hplain)]
      rfl
    | some w =>
      have hw := (hyields w hoffered).ne_slot
      cases w with
      | slot type slot => exact absurd rfl (hw type slot)
      | _ =>
        dsimp only
        rw [if_neg (by simpa using hplain)]
        rfl
  rw [attr?, hown]

theorem method_field {p : Nat} (hyields : s.Yields (s.processor p).type name)
    (hv : s.field? (s.processor p) name = some v) : s.method (.processor p) name = .ok (.value v []) := by
  show s.instanceMethod (.processor p) (s.processor p) name = _
  unfold instanceMethod
  rw [hv]
  cases hmember : s.member? (s.processor p).type name with
  | none => rfl
  | some member =>
    cases member with
    | inborn j => rfl
    | value w =>
      have hw : s.typeAttr? (s.processor p).type name = some w := by rw [typeAttr?, hmember]
      cases w with
      | slot type slot => exact absurd rfl ((hyields _ hw).ne_slot type slot)
      | _ => rfl

/-- The dictionary of an instance has under a name what is stored there, and under others what it had. -/
theorem field?_set (x : Instance) (hx : x.fields < s.dicts.size) (name : String) (v : Value) (other : String) :
    (s.updateDict x.fields fun t => t.set (.str name) v).field? x other =
      if name = other then some v else s.field? x other := by
  rw [field?, dict_updateDict, if_pos ⟨rfl, hx⟩, Entries.named?_set, field?]

end Store

namespace Work
variable {m : Machine} {v : Value} {name : String}

/-- An object whose class has no such method has none. -/
theorem gives_special_of_unsaid {method : String}
    (h : ∀ x, m.store.instance? v = some x → m.store.typeAttr? x.type method = none) : (special? v method).Gives m none m := by
  refine (gives_store m).bind fun σ => ?_
  cases hx : m.store.instance? v with
  | none => rfl
  | some x =>
    dsimp only
    rw [h x hx]
    rfl

/-- What is mute is asked neither how it is read nor how it is written. -/
theorem gives_special_of_mute (h : m.store.Mute v) {method : String} (hmethod : method = "__get__" ∨ method = "__set__") :
    (special? v method).Gives m none m := by
  rcases hmethod with rfl | rfl
  · exact gives_special_of_unsaid h.unread
  · exact gives_special_of_unsaid h.unwritten

theorem gives_accessor_of_yields {p : Nat} (hyields : m.store.Yields (m.store.processor p).type name) {method : String}
    (hmethod : method = "__get__" ∨ method = "__set__") : (accessor? (.processor p) name method).Gives m none m := by
  refine (gives_store m).bind fun σ => ?_
  dsimp only [Store.instance?, Option.bind_some]
  cases hoffered : m.store.typeAttr? (m.store.processor p).type name with
  | none => rfl
  | some w => exact gives_special_of_mute (hyields w hoffered) hmethod σ

/-- What an instance has of its own is read off its dictionary. -/
theorem gives_field {p : Nat} (hname : Store.isReserved name = false)
    (hdirect : m.store.typeAttr? (m.store.processor p).type "__getattribute__" = none)
    (hyields : m.store.Yields (m.store.processor p).type name)
    (hv : m.store.field? (m.store.processor p) name = some v) : (attr (.processor p) name).Gives m v m := by
  have hread : (readValue? (.processor p) name).Gives m none m :=
    (gives_store m).bind ((gives_accessor_of_yields hyields (.inl rfl)).bind fun _ => rfl)
  have hfound : (found? (.processor p) name).Gives m (some v) m := by
    refine hread.bind ((gives_store m).bind fun σ => ?_)
    rw [Store.attr?_field hname hyields hv]
    dsimp only
    rw [Store.method_field hyields hv]
    rfl
  intro σ
  unfold attr
  rw [(gives_special_processor hdirect).bind_eq]
  dsimp only
  rw [hfound.attempt.bind_eq]
  rfl

/-- What a class offers is read off the classes above it. -/
theorem gives_classAttr {c : Nat} (hname : Store.isReserved name = false) (hv : m.store.typeAttr? c name = some v)
    (hmute : m.store.Mute v) : (attr (.type c) name).Gives m v m := by
  have haccessor : (accessor? (.type c) name "__get__").Gives m none m := by
    refine (gives_store m).bind fun σ => ?_
    dsimp only
    rw [hv]
    exact gives_special_of_mute hmute (.inl rfl) σ
  have hread : (readValue? (.type c) name).Gives m none m := (gives_store m).bind (haccessor.bind fun _ => rfl)
  have hattr : m.store.attr? (.type c) name = some v := (Store.attr?_type hname c).trans hv
  have hmember : m.store.member? c name = some (.value v) := by
    rw [Store.typeAttr?] at hv
    cases hmember : m.store.member? c name with
    | none =>
      rw [hmember] at hv
      cases hv
    | some member =>
      rw [hmember] at hv
      cases member with
      | value w =>
        cases hv
        rfl
      | inborn j => cases hv
  have hmethod : m.store.method (.type c) name = .ok (.value v []) := by
    have hget : m.store.attr (.type c) name = .ok v := by
      rw [Store.attr, hattr]
    unfold Store.method
    dsimp only
    rw [hmember, hget]
    rfl
  have hfound : (found? (.type c) name).Gives m (some v) m := by
    refine hread.bind ((gives_store m).bind fun σ => ?_)
    rw [hattr]
    dsimp only
    rw [hmethod]
    rfl
  intro σ
  unfold attr
  rw [(gives_special_of_instance? (v := .type c) rfl _).bind_eq]
  dsimp only
  rw [hfound.attempt.bind_eq]
  rfl

/-- An instance with a dictionary has under a name what is stored there. -/
theorem gives_setField {p : Nat} (hname : Store.isReserved name = false)
    (hstores : m.store.typeAttr? (m.store.processor p).type "__setattr__" = none)
    (hyields : m.store.Yields (m.store.processor p).type name)
    (hdict : m.store.givesDict (m.store.processor p).type = true) (v : Value) :
    (setAttribute (.processor p) name v).Gives m () { m with
      store := m.store.updateDict (m.store.processor p).fields fun t => t.set (.str name) v } := by
  have hset : m.store.setAttr (.processor p) name v =
      .ok (m.store.updateDict (m.store.processor p).fields fun t => t.set (.str name) v) := by
    show m.store.setInstanceAttr (.processor p) (m.store.processor p) name v = _
    have hclass : name ≠ "__class__" := Store.ne_of_isReserved hname (by decide +kernel)
    have hweak : name ≠ "__weakref__" := Store.ne_of_isReserved hname (by decide +kernel)
    have hfields : name ≠ "__dict__" := Store.ne_of_isReserved hname (by decide +kernel)
    have hslot : ∀ type slot, m.store.typeAttr? (m.store.processor p).type name ≠ some (.slot type slot) :=
      fun type slot h => (hyields _ h).ne_slot type slot rfl
    unfold Store.setInstanceAttr
    simp only [hdict]
    split
    · exact absurd rfl hclass
    · exact absurd rfl hclass
    · exact absurd rfl hweak
    · rename_i h
      exact absurd h (hslot _ _)
    · rw [if_neg (by decide)]
      split
      · exact absurd rfl hfields
      · exact absurd rfl hfields
      · rfl
  intro σ
  unfold setAttribute
  dsimp only
  rw [(gives_accessor_of_yields hyields (.inr rfl)).bind_eq, (gives_special_processor hstores).bind_eq]
  have hdone : (do return ((), ← m.store.setAttr (.processor p) name v) : Except Failure (Unit × Store)) =
      .ok ((), m.store.updateDict (m.store.processor p).fields fun t => t.set (.str name) v) := by
    rw [hset]
    rfl
  show perhaps (fun s => do return ((), ← s.setAttr (.processor p) name v)) σ m = _
  unfold perhaps
  dsimp only
  rw [hdone]

/-- A ware does itself what it is called to do by name, unless something else was stored there. -/
theorem callMethod_ware {w : Nat} {name : String} (hname : name = "use" ∨ name = "attach")
    (hstored : (m.store.runner.ware w).attrs.get? name = none)
    (hattachers : (m.store.runner.ware w).attachers.isSome = true) (args : List Value) (σ : Service) :
    callMethod (.ware w) name args σ m = σ (.invoke (.ware w name) args) m := by
  have hattr : m.store.attr? (.ware w) name = none := by
    unfold Store.attr? Store.ownAttr?
    dsimp only
    rw [hstored]
    rcases hname with rfl | rfl <;> rfl
  have hmethod : m.store.method (.ware w) name = .ok (.ware w name) := by
    have hknown : (Store.wareMethods (m.store.runner.ware w)).contains name = true := by
      unfold Store.wareMethods
      rw [hattachers]
      rcases hname with rfl | rfl <;> decide
    unfold Store.method
    simp only [hattr, Option.isNone_none, hknown, Bool.true_and, if_true]
  have hspecial : (special? (.ware w) "__getattribute__").Gives m none m := fun _ => rfl
  have haccessor : (accessor? (.ware w) name "__get__").Gives m none m := fun _ => rfl
  unfold callMethod
  rw [hspecial.bind_eq, haccessor.bind_eq, (gives_query _ m).bind_eq, hmethod]
  rfl

end Work
end Treeworks
