import Mathlib.Data.Set.Insert
import Treeworks.Proofs.Attach.Leaf
import Treeworks.Proofs.Copy.Duplicate
import Treeworks.Proofs.Lineage.Derived

/-! What an instance of a family has to itself, and what is everybody's. An instance has its dictionary, its ware with the
two lists and the registered steps, its parser and compiler classes with the containers that they define, and its data at
any depth. Everybody's are the containers that some classes define, and the data of families. Containers under reserved
names are nobody's. -/
namespace Treeworks

/-- A ware apart from the futures that it waits for. -/
def Ware.rested (w : Ware) : Ware := { w with pending := [] }

/-- A class that has noted its default. -/
def TypeDef.noting (t : TypeDef) (v : Value) : TypeDef :=
  { t with attrs := t.attrs.set "_default" v, fixed := t.fixed.filter (· ≠ "_default") }

theorem TypeDef.get?_noting_of_ne {name : String} (h : name ≠ "_default") (t : TypeDef) (v : Value) :
    (t.noting v).attrs.get? name = t.attrs.get? name := by
  rw [noting, Table.get?_set, if_neg (Ne.symm h)]

theorem Value.isMutable_of_isContainer {v : Value} (h : v.isContainer = true) : v.isMutable = true := by
  cases v <;> first | rfl | cases h

namespace Store
variable (made : Value → List Value) (s s' : Store)

/-- Whether an object is there: one that can come to hold something else, a ware, a step or a class. -/
def Stands : Value → Prop
  | .ware i => i < s.runner.wares.size
  | .step i => i < s.runner.steps.size
  | .type i => i < s.types.size
  | v => s.There v

/-- Whether an object is the same in two stores. -/
def SameAs : Value → Prop
  | .ware i => (s'.runner.ware i).rested = (s.runner.ware i).rested
  | .step i => s'.runner.step i = s.runner.step i
  | .type i => s'.type i = s.type i
  | v => s.SameAt s' v

/-- Whether a class is the same in two stores, or is a family that had noted nothing and has noted its default. -/
def Lasts (c : Nat) : Prop :=
  s'.type c = s.type c ∨ s.descends c 0 = true ∧ s.noted c = .null ∧ ∃ p, s'.type c = (s.type c).noting (.processor p)

/-- Whether a class is the parser or the compiler of an instance. -/
def IsPart (p i : Nat) : Prop :=
  s.field? (s.processor p) "Parser" = some (.type i) ∨ s.field? (s.processor p) "Compiler" = some (.type i)

/-- What an instance is made of: itself with its dictionary, its ware with the lists of steps and of attachers, and its
parser and compiler classes. -/
inductive Core (p : Nat) : Value → Prop
  | self : Core p (.processor p)
  | fields : Core p (.dict (s.processor p).fields)
  | ware {w : Nat} (hw : s.field? (s.processor p) "ware" = some (.ware w)) : Core p (.ware w)
  | steps {w : Nat} (hw : s.field? (s.processor p) "ware" = some (.ware w)) : Core p (s.runner.ware w).steps
  | attachers {w : Nat} {v : Value} (hw : s.field? (s.processor p) "ware" = some (.ware w))
      (hv : (s.runner.ware w).attachers = some v) : Core p v
  | type {i : Nat} (hi : s.IsPart p i) : Core p (.type i)

/-- Whether a step is registered with the ware of an instance. -/
def Registered (p k : Nat) : Prop :=
  ∃ w f, s.field? (s.processor p) "ware" = some (.ware w) ∧ (s.runner.ware w).steps = .list f ∧ .step k ∈ s.list f

/-- Whether a class itself defines a container, under a name that is not reserved. -/
def Tabled (c : Nat) (v : Value) : Prop :=
  ∃ name, isReserved name = false ∧ (s.type c).attrs.get? name = some v ∧ v.isContainer = true

/-- Whether something that can change is within the data of an instance. -/
def Data (p : Nat) (v : Value) : Prop :=
  ∃ d, s.field? (s.processor p) "data" = some d ∧ s.Within made d v ∧ v.isMutable = true

/-- Whether something is an instance's own. -/
inductive Own (p : Nat) : Value → Prop
  | core {v : Value} (h : s.Core p v) : Own p v
  | step {k : Nat} (h : s.Registered p k) : Own p (.step k)
  | table {i : Nat} {v : Value} (hi : s.IsPart p i) (h : s.Tabled i v) : Own p v
  | data {v : Value} (h : s.Data made p v) : Own p v

/-- Whether something belongs to some classes: it is a container that one of them defines, or within the data that one of
them offers if it is a family. -/
inductive Common (K : Set Nat) : Value → Prop
  | table {c : Nat} {v : Value} (hc : c ∈ K) (h : s.Tabled c v) : Common K v
  | data {c : Nat} {d v : Value} (hc : c ∈ K) (hfamily : s.descends c 0 = true)
      (hd : s.typeAttr? c "data" = some d) (h : s.Within made d v) (hv : v.isMutable = true) : Common K v

variable {made s s'} {s'' : Store} {v w : Value} {c p : Nat} {K : Set Nat} {name : String}

/-! ### Classes that last -/

namespace Lasts

theorem refl (s : Store) (c : Nat) : s.Lasts s c := .inl rfl

/-- A class that lasts is in all else than what it has noted as it was. -/
theorem congr {α : Type} (h : s.Lasts s' c) (g : TypeDef → α) (hg : ∀ t v, g (.noting t v) = g t) :
    g (s'.type c) = g (s.type c) := by
  obtain h | ⟨-, -, p, h⟩ := h <;> rw [h]
  exact hg _ _

theorem ancestry (h : s.Lasts s' c) : (s'.type c).ancestry = (s.type c).ancestry := h.congr _ fun _ _ => rfl

theorem role (h : s.Lasts s' c) : (s'.type c).role = (s.type c).role := h.congr _ fun _ _ => rfl

theorem extras (h : s.Lasts s' c) : (s'.type c).extras = (s.type c).extras := h.congr _ fun _ _ => rfl

theorem doc (h : s.Lasts s' c) : (s'.type c).doc = (s.type c).doc := h.congr _ fun _ _ => rfl

theorem descends (h : s.Lasts s' c) (i : Nat) : s'.descends c i = s.descends c i := by
  rw [Store.descends, h.ancestry, Store.descends]

theorem attrs (h : s.Lasts s' c) (hname : name ≠ "_default") :
    (s'.type c).attrs.get? name = (s.type c).attrs.get? name :=
  h.congr (fun t => t.attrs.get? name) fun t v => t.get?_noting_of_ne hname v

/-- What a class has noted stays noted. -/
theorem noted (h : s.Lasts s' c) (hnoted : s.noted c ≠ .null) : s'.type c = s.type c :=
  h.resolve_right fun h => hnoted h.2.1

theorem trans (h : s.Lasts s' c) (h' : s'.Lasts s'' c) : s.Lasts s'' c := by
  obtain h | ⟨hfamily, hnull, p, hp⟩ := h
  · unfold Lasts Store.noted Store.descends at h' ⊢
    rwa [h] at h'
  · -- It has noted an instance, and does not note another.
    have hnoted : s'.noted c ≠ .null := by
      rw [Store.noted, hp, TypeDef.noting, Table.get?_set, if_pos rfl]
      intro hnull
      cases hnull
    exact .inr ⟨hfamily, hnull, p, (h'.noted hnoted).trans hp⟩

/-- A class leads a name to what it led it to, or to the default that it has noted. -/
theorem offer? (h : s.Lasts s' c) (name : String) : s'.offer? name c = s.offer? name c ∨
    name = "_default" ∧ ∃ p, s'.offer? name c = some (.value (.processor p)) := by
  by_cases hname : name = "_default"
  · subst hname
    obtain h | ⟨-, -, p, h⟩ := h
    · left
      rw [Store.offer?, h, Store.offer?]
    · right
      refine ⟨rfl, p, ?_⟩
      rw [Store.offer?, h, TypeDef.noting, Table.get?_set, if_pos rfl]
  · left
    rw [Store.offer?, h.attrs hname, h.role, Store.offer?]

theorem tabled (h : s.Lasts s' c) : s'.Tabled c v ↔ s.Tabled c v := by
  obtain h | ⟨-, hnull, p, h⟩ := h
  · rw [Tabled, h, Tabled]
  · -- Neither what is noted nor what stood there before is a container.
    have hdefault (hv : v.isContainer = true) : (s.type c).attrs.get? "_default" ≠ some v := by
      intro hget
      rw [Store.noted, hget] at hnull
      cases hnull
      cases hv
    rw [Tabled, h, Tabled]
    refine exists_congr fun name => and_congr_right fun _ => and_congr_left fun hv => ?_
    by_cases hname : name = "_default"
    · subst hname
      rw [TypeDef.noting, Table.get?_set, if_pos rfl]
      refine iff_of_false (fun hget => ?_) (hdefault hv)
      cases hget
      cases hv
    · rw [TypeDef.get?_noting_of_ne hname]

end Lasts

section
variable (hc : s.Lasts s' c) (habove : ∀ j ∈ (s.type c).ancestry, s.Lasts s' j)
include hc habove

/-- What classes offer is the same where they last, with all classes above them. -/
theorem Lasts.member? (hname : name ≠ "_default") : s'.member? c name = s.member? c name := by
  have hmap : (s.type c).ancestry.map (s'.offer? name) = (s.type c).ancestry.map (s.offer? name) :=
    List.map_congr_left fun j hj => ((habove j hj).offer? name).resolve_right fun h => hname h.1
  have hfind (t : Store) : (s.type c).ancestry.findSome? (t.offer? name) =
      ((s.type c).ancestry.map (t.offer? name)).findSome? id := by
    rw [List.findSome?_map]
    rfl
  rw [member?_eq, member?_eq, hc.ancestry, hfind, hfind, hmap]

theorem Lasts.typeAttr? (hname : name ≠ "_default") : s'.typeAttr? c name = s.typeAttr? c name := by
  rw [Store.typeAttr?, hc.member? habove hname, Store.typeAttr?]

/-- A container that a class offers was offered by it before. -/
theorem Lasts.member?_of_isContainer (hv : v.isContainer = true) (h : s'.member? c name = some (.value v)) :
    s.member? c name = some (.value v) := by
  rw [member?_eq, hc.ancestry] at h
  rw [member?_eq]
  revert h
  generalize (s.type c).ancestry = ancestry at habove
  induction ancestry with
  | nil => exact id
  | cons j ancestry ih =>
    obtain ⟨hj, habove⟩ := List.forall_mem_cons.mp habove
    intro h
    rw [List.findSome?_cons] at h ⊢
    -- A class that offers anything else than before offers an instance, which it has noted.
    obtain hsame | ⟨-, q, hq⟩ := hj.offer? name
    · rw [hsame] at h
      cases hoffer : s.offer? name j with
      | some member =>
        rw [hoffer] at h
        exact h
      | none =>
        rw [hoffer] at h
        exact ih habove h
    · rw [hq] at h
      cases h
      cases hv

end

/-! ### What is the same -/

theorem SameAs.refl (s : Store) (v : Value) : s.SameAs s v := by cases v <;> rfl

theorem SameAs.trans (h : s.SameAs s' v) (h' : s'.SameAs s'' v) : s.SameAs s'' v := by
  cases v <;> exact Eq.trans h' h

theorem SameAs.sameAt (h : s.SameAs s' v) : s.SameAt s' v := by
  cases v <;> first | exact h | rfl

theorem SameAs.tabled (h : s.SameAs s' (.type c)) : s'.Tabled c v ↔ s.Tabled c v := Lasts.tabled (.inl h)

theorem sameAt_of_not_isMutable (h : v.isMutable = false) : s.SameAt s' v := by
  cases v <;> first | rfl | cases h

theorem sameAs_of_isMutable (h : v.isMutable = true) : s.SameAs s' v ↔ s.SameAt s' v := by
  cases v <;> first | rfl | cases h

/-- What is within a value is the same if all of it that can change is. -/
theorem within_congr_of_isMutable (h : ∀ w, s.Within made v w → w.isMutable = true → s.SameAs s' w) :
    s'.Within made v w ↔ s.Within made v w := by
  apply within_congr
  intro w hw
  cases hmutable : w.isMutable with
  | true => exact (h w hw hmutable).sameAt
  | false => exact sameAt_of_not_isMutable hmutable

/-- Whether an instance is the same in two stores as far as its own dictionary and ware go, apart from its data. -/
structure SameCore (s s' : Store) (p : Nat) : Prop where
  self : s'.processor p = s.processor p
  field : ∀ name ≠ "data", s'.field? (s.processor p) name = s.field? (s.processor p) name
  ware : ∀ w, s.field? (s.processor p) "ware" = some (.ware w) → (s'.runner.ware w).rested = (s.runner.ware w).rested

theorem field?_congr (x : Instance) (h : s'.dict x.fields = s.dict x.fields) (name : String) :
    s'.field? x name = s.field? x name := by
  rw [field?, h, field?]

theorem sameCore_of_core (h : ∀ v, s.Core p v → s.SameAs s' v) : s.SameCore s' p where
  self := Option.some.inj (h _ .self)
  field name _ := field?_congr _ (h _ .fields) name
  ware _ hw := h _ (.ware hw)

namespace SameCore

theorem refl (s : Store) (p : Nat) : s.SameCore s p := ⟨rfl, fun _ _ => rfl, fun _ _ => rfl⟩

theorem field? (h : s.SameCore s' p) (hname : name ≠ "data") :
    s'.field? (s'.processor p) name = s.field? (s.processor p) name := by
  rw [h.self]
  exact h.field name hname

theorem isPart (h : s.SameCore s' p) (i : Nat) : s'.IsPart p i ↔ s.IsPart p i := by
  unfold IsPart
  rw [h.field? (by decide), h.field? (by decide)]

/-- An attribute of the ware is the same, apart from the futures that it waits for. -/
theorem wareAttr {α : Type} (h : s.SameCore s' p) {w : Nat} (hw : s.field? (s.processor p) "ware" = some (.ware w))
    (g : Ware → α) (hg : ∀ x : Ware, g x.rested = g x) : g (s'.runner.ware w) = g (s.runner.ware w) := by
  rw [← hg, h.ware w hw, hg]

theorem core (h : s.SameCore s' p) : s'.Core p v ↔ s.Core p v := by
  have hfield := h.field? (show "ware" ≠ "data" by decide)
  constructor
  · intro hv
    cases hv with
    | self => exact .self
    | fields => exact h.self ▸ .fields
    | ware hw => exact .ware (hfield ▸ hw)
    | steps hw =>
      rw [hfield] at hw
      exact h.wareAttr hw Ware.steps (fun _ => rfl) ▸ .steps hw
    | attachers hw hv =>
      rw [hfield] at hw
      exact .attachers hw ((h.wareAttr hw Ware.attachers fun _ => rfl) ▸ hv)
    | type hi => exact .type ((h.isPart _).mp hi)
  · intro hv
    cases hv with
    | self => exact .self
    | fields => exact h.self ▸ .fields
    | ware hw => exact .ware (hfield.trans hw)
    | steps hw => exact h.wareAttr hw Ware.steps (fun _ => rfl) ▸ .steps (hfield.trans hw)
    | attachers hw hv => exact .attachers (hfield.trans hw) ((h.wareAttr hw Ware.attachers fun _ => rfl).trans hv)
    | type hi => exact .type ((h.isPart _).mpr hi)

theorem trans (h : s.SameCore s' p) (h' : s'.SameCore s'' p) : s.SameCore s'' p where
  self := h'.self.trans h.self
  field name hname := by
    rw [← h.self, h'.field name hname, h.self, h.field name hname]
  ware w hw := (h'.ware w ((h.field? (by decide)).trans hw)).trans (h.ware w hw)

/-- The steps that are registered with the ware are the same if its list of steps is. -/
theorem registered (h : s.SameCore s' p)
    (hlist : ∀ f, s.Core p (.list f) → s'.list f = s.list f) {k : Nat} : s'.Registered p k ↔ s.Registered p k := by
  unfold Registered
  rw [h.field? (by decide)]
  refine exists_congr fun w => exists_congr fun f => and_congr_right fun hw => ?_
  rw [h.wareAttr hw Ware.steps fun _ => rfl]
  refine and_congr_right fun hf => ?_
  rw [hlist f (hf ▸ .steps hw)]

end SameCore

/-- The data of an instance are the same if they are the same value, and all that is within it. -/
theorem data_congr (hself : s'.processor p = s.processor p)
    (hfield : s'.field? (s.processor p) "data" = s.field? (s.processor p) "data")
    (hdata : ∀ v, s.Data made p v → s.SameAs s' v) : s'.Data made p v ↔ s.Data made p v := by
  have hwithin {d : Value} (hd : s.field? (s.processor p) "data" = some d) (w : Value) :
      s'.Within made d w ↔ s.Within made d w :=
    within_congr_of_isMutable fun w hw hmutable => hdata w ⟨d, hd, hw, hmutable⟩
  unfold Data
  rw [hself, hfield]
  constructor
  · rintro ⟨d, hd, hin, hmutable⟩
    exact ⟨d, hd, (hwithin hd _).mp hin, hmutable⟩
  · rintro ⟨d, hd, hin, hmutable⟩
    exact ⟨d, hd, (hwithin hd _).mpr hin, hmutable⟩

/-- What is an instance's own depends on what is its own alone. -/
theorem own_congr (h : ∀ v, s.Own made p v → s.SameAs s' v) : s'.Own made p v ↔ s.Own made p v := by
  have hcore : s.SameCore s' p := sameCore_of_core fun v hv => h v (.core hv)
  have hlist (f : Nat) (hf : s.Core p (.list f)) : s'.list f = s.list f := h _ (.core hf)
  have hdata : s'.Data made p v ↔ s.Data made p v :=
    data_congr hcore.self (field?_congr _ (h _ (.core .fields)) _) fun v hv => h v (.data hv)
  constructor
  · intro hv
    cases hv with
    | core hv => exact .core (hcore.core.mp hv)
    | step hv => exact .step ((hcore.registered hlist).mp hv)
    | table hi hv =>
      have hi := (hcore.isPart _).mp hi
      exact .table hi ((h _ (.core (.type hi))).tabled.mp hv)
    | data hv => exact .data (hdata.mp hv)
  · intro hv
    cases hv with
    | core hv => exact .core (hcore.core.mpr hv)
    | step hv => exact .step ((hcore.registered hlist).mpr hv)
    | table hi hv => exact .table ((hcore.isPart _).mpr hi) ((h _ (.core (.type hi))).tabled.mpr hv)
    | data hv => exact .data (hdata.mpr hv)

/-- What belongs to some classes depends on that and the classes alone. -/
theorem common_congr (hclosed : ∀ c ∈ K, ∀ j ∈ (s.type c).ancestry, j ∈ K) (hK : ∀ c ∈ K, s.Lasts s' c)
    (h : ∀ v, s.Common made K v → s.SameAs s' v) : s'.Common made K v ↔ s.Common made K v := by
  have hattr {c : Nat} (hc : c ∈ K) : s'.typeAttr? c "data" = s.typeAttr? c "data" :=
    (hK c hc).typeAttr? (fun j hj => hK j (hclosed c hc j hj)) (by decide)
  have hwithin {c : Nat} {d : Value} (hc : c ∈ K) (hfamily : s.descends c 0 = true) (hd : s.typeAttr? c "data" = some d)
      (w : Value) : s'.Within made d w ↔ s.Within made d w :=
    within_congr_of_isMutable fun w hw hmutable => h w (.data hc hfamily hd hw hmutable)
  constructor
  · intro hv
    cases hv with
    | table hc hv => exact .table hc ((hK _ hc).tabled.mp hv)
    | data hc hfamily hd hin hmutable =>
      rw [(hK _ hc).descends] at hfamily
      rw [hattr hc] at hd
      exact .data hc hfamily hd ((hwithin hc hfamily hd _).mp hin) hmutable
  · intro hv
    cases hv with
    | table hc hv => exact .table hc ((hK _ hc).tabled.mpr hv)
    | data hc hfamily hd hin hmutable =>
      exact .data hc (((hK _ hc).descends 0).trans hfamily) ((hattr hc).trans hd) ((hwithin hc hfamily hd _).mpr hin)
        hmutable

end Store
end Treeworks
