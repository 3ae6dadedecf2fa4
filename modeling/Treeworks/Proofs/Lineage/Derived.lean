import Treeworks.Answer
import Treeworks.Proofs.Lineage.Copies

/-! Derived classes. A class that is derived from another one leads every name to what the other leads it to; where that
is a container it has a copy of its own, in which nobody else has a part, and nothing else is its own. -/
namespace Treeworks

/-- Whether an object is asked, or its class, whether it counts as true. -/
def Value.isAsked : Value → Bool
  | .worker _ | .processor _ | .ware _ => true
  | _ => false

namespace Store
variable {s s' : Store} {v : Value}

/-! ### Names along an ancestry -/

theorem get?_ownNames_eq (t : TypeDef) (name : String) : (ownNames t).get? name =
    (t.attrs.get? name).or (if t.role.methods.contains name then some .null else none) := by
  rw [ownNames, Table.get?_fill]
  congr 1
  induction t.role.methods with
  | nil => rfl
  | cons method methods ih =>
    rw [List.map_cons, show Table.get? ((method, Value.null) :: methods.map fun name => (name, Value.null)) name =
      if method = name then some .null else Table.get? (methods.map fun name => (name, Value.null)) name from rfl, ih]
    by_cases h : method = name
    · simp [h]
    · simp [h, Ne.symm h]

/-- What a class itself has under a name. -/
def offer? (s : Store) (name : String) (j : Nat) : Option Member :=
  match (s.type j).attrs.get? name with
  | some v => some (.value v)
  | none => if (s.type j).role.methods.contains name then some (.inborn j) else none

theorem member?_eq (s : Store) (c : Nat) (name : String) :
    s.member? c name = (s.type c).ancestry.findSome? (s.offer? name) := rfl

/-- Where the classes of an ancestry are the same, a name leads to the same. -/
theorem findSome?_offer?_congr {ancestry : List Nat} (htypes : ∀ j ∈ ancestry, s'.type j = s.type j) (name : String) :
    ancestry.findSome? (s'.offer? name) = ancestry.findSome? (s.offer? name) := by
  have hmap : ancestry.map (s'.offer? name) = ancestry.map (s.offer? name) := by
    apply List.map_congr_left
    intro j hj
    rw [offer?, htypes j hj, offer?]
  calc ancestry.findSome? (s'.offer? name) = (ancestry.map (s'.offer? name)).findSome? id := by
        rw [List.findSome?_map]
        rfl
    _ = (ancestry.map (s.offer? name)).findSome? id := by rw [hmap]
    _ = ancestry.findSome? (s.offer? name) := by
        rw [List.findSome?_map]
        rfl

/-- What a class offers, as a value; methods that classes are born with are told by null. -/
def shown : Member → Value
  | .value v => v
  | .inborn _ => .null

theorem get?_ownNames_offer? (s : Store) (name : String) (j : Nat) :
    (ownNames (s.type j)).get? name = (s.offer? name j).map shown := by
  rw [get?_ownNames_eq, offer?]
  cases (s.type j).attrs.get? name with
  | some v => rfl
  | none => cases (s.type j).role.methods.contains name <;> rfl

theorem get?_visibleAttrs (s : Store) (ancestry : List Nat) (name : String) :
    (s.visibleAttrs ancestry).get? name = ancestry.findSome? fun j => (ownNames (s.type j)).get? name := by
  suffices hfold : ∀ acc : Table Value,
      (ancestry.foldl (fun t j => t.fill (ownNames (s.type j))) acc).get? name =
        (acc.get? name).or (ancestry.findSome? fun j => (ownNames (s.type j)).get? name) from hfold []
  induction ancestry with
  | nil => exact fun acc => (Option.or_none).symm
  | cons j ancestry ih =>
    intro acc
    rw [List.foldl_cons, ih, Table.get?_fill, Option.or_assoc, List.findSome?_cons]
    cases (ownNames (s.type j)).get? name <;> rfl

/-- A name is visible along the ancestry of a class just as the class offers it. -/
theorem get?_visibleAttrs_ancestry (s : Store) (base : Nat) (name : String) :
    (s.visibleAttrs (s.type base).ancestry).get? name = (s.member? base name).map shown := by
  rw [get?_visibleAttrs, member?_eq]
  induction (s.type base).ancestry with
  | nil => rfl
  | cons j ancestry ih =>
    rw [List.findSome?_cons, List.findSome?_cons, get?_ownNames_offer?, ih]
    cases s.offer? name j <;> rfl

/-- A container is visible just if it is what the class offers. -/
theorem get?_visibleAttrs_iff {base : Nat} {name : String} (hv : v.isContainer = true) :
    (s.visibleAttrs (s.type base).ancestry).get? name = some v ↔ s.member? base name = some (.value v) := by
  rw [get?_visibleAttrs_ancestry]
  constructor
  · intro h
    obtain ⟨member, hmember, rfl⟩ := Option.map_eq_some_iff.mp h
    cases member with
    | value v => exact hmember
    | inborn j => cases hv
  · intro h
    rw [h]
    rfl

theorem distinct_visibleAttrs (s : Store) (ancestry : List Nat) : (s.visibleAttrs ancestry).Distinct := by
  suffices hfold : ∀ acc : Table Value, acc.Distinct →
      (ancestry.foldl (fun t j => t.fill (ownNames (s.type j))) acc).Distinct from hfold [] List.nodup_nil
  induction ancestry with
  | nil => exact fun acc h => h
  | cons j ancestry ih => exact fun acc h => ih _ (h.fill _)

/-! ### Deriving a class -/

/-- Whether all that classes name is there: the classes of their ancestries, and the containers among their attributes;
and whether all sets fit into their tables. -/
structure Housed (s : Store) : Prop where
  ancestors : ∀ c, ∀ j ∈ (s.type c).ancestry, j < s.types.size
  held : ∀ {c name v}, (s.type c).attrs.get? name = some v → s.Holds v
  fits : ∀ i, (s.set i).Fits

/-- Whether a class is an ordinary one: its documentation is no object that is asked whether it counts as true, and no
class above it has something to say about those below. -/
structure Ordinary (s : Store) (base : Nat) : Prop where
  doc : (s.type base).doc.isAsked = false
  unhooked : ∀ j ∈ (s.type base).ancestry, (s.type j).attrs.get? "__init_subclass__" = none

/-- What a derived class is to the one that it was derived from. -/
structure Derived (s : Store) (base : Nat) (s' : Store) (d : Nat) : Prop where
  new : s.types.size ≤ d
  ancestry : (s'.type d).ancestry = d :: (s.type base).ancestry
  /-- Where the base leads a name to a container, the derived class has a copy of its own. -/
  containers : ∀ {name v}, isReserved name = false → s.member? base name = some (.value v) → v.isContainer = true →
    ∃ w, (s'.type d).attrs.get? name = some w ∧ s'.member? d name = some (.value w) ∧ s.Copied v s' w
  /-- It does not define any other name, and leads it to what the base leads it to. -/
  others : ∀ {name}, isReserved name = false → (∀ v, s.member? base name = some (.value v) → v.isContainer = false) →
    (s'.type d).attrs.get? name = none ∧ s'.member? d name = s.member? base name
  /-- No class has a part in what it owns, and no two of its names have the same. -/
  apart : ∀ {c name name' w}, (s'.type d).attrs.get? name = some w → (s'.type c).attrs.get? name' = some w →
    c = d ∧ name' = name
  /-- Classes that were there before, and containers, are as they were. -/
  kept : s.Extends s'

theorem Housed.held_of_visible (h : s.Housed) (base : Nat) : s.HoldsAll (s.visibleAttrs (s.type base).ancestry) := by
  intro e he
  obtain ⟨j, -, hj⟩ := mem_visibleAttrs he
  rcases get?_ownNames hj with hget | hnull
  · exact h.held hget
  · rw [hnull]
    trivial

/-- How a class is made below another: it is new, and what it has itself are copies of the containers that are visible
from the other. -/
structure Drawn (s : Store) (base : Nat) (s' : Store) (d : Nat) (t : TypeDef) : Prop where
  new : d = s.types.size
  there : d < s'.types.size
  types : ∀ c, s'.type c = if c = d then t else s.type c
  ancestry : t.ancestry = d :: (s.type base).ancestry
  role : t.role = .plain
  copies : s.Copies (s.visibleAttrs (s.type base).ancestry) s' t.attrs
  kept : s.Extends s'
  fits : ∀ i, (s'.set i).Fits

theorem drawn_derive (h : s.Housed) (base : Nat) (documented : Bool) : ∃ t : TypeDef,
    s.Drawn base (s.derive base documented).2 (s.derive base documented).1 t ∧
      (t.doc = (s.type base).doc ∨ t.doc = .null) := by
  obtain ⟨hext, hfits, hcopies⟩ :=
    ownContainers_copies h.fits (distinct_visibleAttrs s (s.type base).ancestry) (h.held_of_visible base)
  have htypes : (s.ownContainers (s.visibleAttrs (s.type base).ancestry)).2.types = s.types :=
    (ownContainers_spec s _).1.types
  refine ⟨⟨(s.type base).name, (s.type base).qualname, (s.type base).module,
    if documented then (s.type base).doc else .null, [base], s.types.size :: (s.type base).ancestry,
    (s.ownContainers (s.visibleAttrs (s.type base).ancestry)).1, .plain, extraSlots, (s.type base).layout, []⟩, ?_, ?_⟩
  · unfold derive
    dsimp only
    generalize (s.ownContainers (s.visibleAttrs (s.type base).ancestry)).2 = s₁ at hext hfits hcopies htypes ⊢
    have hpush (t : TypeDef) : s₁.Extends { s₁ with types := s₁.types.push t } :=
      { Extends.refl s₁ with types := .push _ _ }
    rw [htypes]
    refine ⟨rfl, ?_, fun c => ?_, rfl, rfl, hcopies.extends_right (htypes ▸ hpush _), hext.trans (htypes ▸ hpush _), hfits⟩
    · show s.types.size < (s.types.push _).size
      simp
    · rw [← htypes, type_push, htypes]
      split
      · rfl
      · rw [type, htypes, type]
  · cases documented
    · exact .inr rfl
    · exact .inl rfl

section
variable {base d : Nat} {t : TypeDef}

theorem Drawn.type_self (h : s.Drawn base s' d t) : s'.type d = t := (h.types d).trans (if_pos rfl)

/-- A name leads to what the new class itself has there, else to what the base offers. -/
theorem Drawn.member? (h : s.Drawn base s' d t) (hs : s.Housed) (name : String) :
    s'.member? d name = (t.attrs.get? name).elim (s.member? base name) fun w => some (.value w) := by
  have hold : ∀ j ∈ (s.type base).ancestry, s'.type j = s.type j := fun j hj => h.kept.type (hs.ancestors base j hj)
  rw [member?_eq, h.type_self, h.ancestry, List.findSome?_cons, offer?, h.type_self, findSome?_offer?_congr hold]
  cases t.attrs.get? name with
  | some w => rfl
  | none =>
    rw [h.role]
    rfl

theorem Drawn.derived (h : s.Drawn base s' d t) (hs : s.Housed) : s.Derived base s' d where
  new := Nat.le_of_eq h.new.symm
  ancestry := by rw [h.type_self, h.ancestry]
  containers {name v} hname hv hcontainer := by
    obtain ⟨w, hw, hcopied⟩ := h.copies.copied ((get?_visibleAttrs_iff hcontainer).mpr hv) hname hcontainer
    have hmember : s'.member? d name = some (.value w) := by
      rw [h.member? hs, hw]
      rfl
    exact ⟨w, by rw [h.type_self, hw], hmember, hcopied⟩
  others {name} hname hnone := by
    have hown : t.attrs.get? name = none := by
      cases hget : t.attrs.get? name with
      | none => rfl
      | some w =>
        obtain ⟨-, v, hv, hcontainer, -⟩ := h.copies.only hget
        have hfalse := hnone v ((get?_visibleAttrs_iff hcontainer).mp hv)
        exact absurd (hcontainer.symm.trans hfalse) (by decide)
    refine ⟨by rw [h.type_self, hown], ?_⟩
    rw [h.member? hs, hown]
    rfl
  apart {c name name' w} hw hw' := by
    rw [h.type_self] at hw
    obtain ⟨-, v, -, -, hcopied⟩ := h.copies.only hw
    by_cases hc : c = d
    · subst hc
      rw [h.type_self] at hw'
      exact ⟨rfl, h.copies.apart hw' hw⟩
    · -- What another class has was there before.
      rw [h.types, if_neg hc] at hw'
      exact absurd (hs.held hw') hcopied.new
  kept := h.kept

theorem Drawn.housed (h : s.Drawn base s' d t) (hs : s.Housed) : s'.Housed where
  ancestors c j hj := by
    rw [h.types] at hj
    split at hj
    · rw [h.ancestry] at hj
      rcases List.mem_cons.mp hj with rfl | hj
      · exact h.there
      · exact Nat.lt_of_lt_of_le (hs.ancestors base j hj) h.kept.types.size
    · exact Nat.lt_of_lt_of_le (hs.ancestors c j hj) h.kept.types.size
  held {c name v} hv := by
    rw [h.types] at hv
    split at hv
    · obtain ⟨-, u, -, -, hcopied⟩ := h.copies.only hv
      exact hcopied.there
    · exact h.kept.holds (hs.held hv)
  fits := h.fits

theorem Drawn.ordinary (h : s.Drawn base s' d t) (hs : s.Housed) (hbase : s.Ordinary base)
    (hdoc : t.doc = (s.type base).doc ∨ t.doc = .null) : s'.Ordinary d where
  doc := by
    rw [h.type_self]
    rcases hdoc with hdoc | hdoc <;> rw [hdoc]
    · exact hbase.doc
    · rfl
  unhooked j hj := by
    rw [h.type_self, h.ancestry] at hj
    rcases List.mem_cons.mp hj with rfl | hj
    · rw [h.type_self]
      cases hget : t.attrs.get? "__init_subclass__" with
      | none => rfl
      | some w =>
        obtain ⟨hreserved, -⟩ := h.copies.only hget
        exact absurd hreserved (by decide +kernel)
    · rw [h.kept.type (hs.ancestors base j hj)]
      exact hbase.unhooked j hj

end

/-! ### Defining classes and storing on them -/

/-- A class below some others has ancestors among theirs. -/
theorem mem_of_merge {fuel : Nat} {sequences : List (List Nat)} {above : List Nat}
    (h : Ancestry.merge fuel sequences = some above) : ∀ j ∈ above, ∃ q ∈ sequences, j ∈ q := by
  induction fuel generalizing sequences above with
  | zero =>
    cases sequences with
    | nil =>
      cases h
      exact nofun
    | cons q sequences => cases h
  | succ fuel ih =>
    cases sequences with
    | nil =>
      cases h
      exact nofun
    | cons q sequences =>
      rw [Ancestry.merge.eq_3 _ _ (by simp)] at h
      split at h
      · cases h
      rename_i head hhead
      obtain ⟨rest, hrest, rfl⟩ := Option.map_eq_some_iff.mp h
      have hmem : ∃ q' ∈ q :: sequences, head ∈ q' := by
        obtain ⟨q', hq', hq'head⟩ := List.mem_filterMap.mp (List.mem_of_find?_eq_some hhead)
        exact ⟨q', hq', List.mem_of_head? hq'head⟩
      intro j hj
      rcases List.mem_cons.mp hj with rfl | hj
      · exact hmem
      · obtain ⟨q', hq', hjq'⟩ := ih hrest j hj
        obtain ⟨hq', -⟩ := List.mem_filter.mp hq'
        obtain ⟨q'', hq'', rfl⟩ := List.mem_map.mp hq'
        refine ⟨q'', hq'', ?_⟩
        split at hjq'
        · exact List.mem_of_mem_tail hjq'
        · exact hjq'

theorem mem_of_ofBases {ancestry : Nat → List Nat} {bases above : List Nat}
    (h : Ancestry.ofBases ancestry bases = some above) : ∀ j ∈ above, j ∈ bases ∨ ∃ i ∈ bases, j ∈ ancestry i := by
  intro j hj
  unfold Ancestry.ofBases at h
  split at h
  · cases h
  obtain ⟨q, hq, hjq⟩ := mem_of_merge h j hj
  obtain ⟨hq, -⟩ := List.mem_filter.mp hq
  rcases List.mem_append.mp hq with hq | hq
  · obtain ⟨i, hi, rfl⟩ := List.mem_map.mp hq
    exact .inr ⟨i, hi, hjq⟩
  · rw [List.mem_singleton.mp hq] at hjq
    exact .inl hjq

theorem Housed.push (h : s.Housed) {t : TypeDef} (hancestry : ∀ j ∈ t.ancestry, j ≤ s.types.size)
    (hattrs : ∀ {name v}, t.attrs.get? name = some v → s.Holds v) : Housed { s with types := s.types.push t } where
  ancestors c j hj := by
    have hsize : (s.types.push t).size = s.types.size + 1 := Array.size_push t
    rw [type_push] at hj
    show j < (s.types.push t).size
    rw [hsize]
    split at hj
    · exact Nat.lt_succ_of_le (hancestry j hj)
    · exact Nat.lt_succ_of_lt (h.ancestors c j hj)
  held {c name v} hv := by
    have hsame (w : Value) : s.Holds w → Holds { s with types := s.types.push t } w := by
      cases w <;> exact id
    rw [type_push] at hv
    split at hv
    · exact hsame v (hattrs hv)
    · exact hsame v (h.held hv)
  fits := h.fits

theorem Housed.updateType (h : s.Housed) (c : Nat) {f : TypeDef → TypeDef} (hancestry : ∀ t, (f t).ancestry = t.ancestry)
    (hattrs : ∀ {t name v}, (f t).attrs.get? name = some v → t.attrs.get? name = some v ∨ s.Holds v) :
    (s.updateType c f).Housed where
  ancestors d j hj := by
    have hsize : (s.updateType c f).types.size = s.types.size := Array.size_modify
    rw [type_updateType] at hj
    rw [hsize]
    split at hj
    · rw [hancestry] at hj
      exact h.ancestors d j hj
    · exact h.ancestors d j hj
  held {d name v} hv := by
    have hsame (w : Value) : s.Holds w → (s.updateType c f).Holds w := by
      cases w <;> exact id
    rw [type_updateType] at hv
    split at hv
    · rcases hattrs hv with hv | hv
      · exact hsame v (h.held hv)
      · exact hsame v hv
    · exact hsame v (h.held hv)
  fits := h.fits

/-- To store what is there on a class keeps all that classes name there. -/
theorem Housed.setTypeAttr (h : s.Housed) {c : Nat} {name : String} (hv : s.Holds v)
    (hset : s.setTypeAttr c name v = .ok s') : s'.Housed := by
  have hstored {t : TypeDef} {key : String} {w : Value} (hw : (t.attrs.set name v).get? key = some w) :
      t.attrs.get? key = some w ∨ s.Holds w := by
    rw [Table.get?_set] at hw
    split at hw
    · cases hw
      exact .inr hv
    · exact .inl hw
  unfold Store.setTypeAttr at hset
  split at hset
  · split at hset
    · obtain ⟨-, -, hs'⟩ := Except.bind_eq_ok hset
      cases hs'
      exact h.updateType c (fun _ => rfl) .inl
    · cases hset
  split at hset
  · split at hset
    · cases hset
      exact h.updateType c (fun _ => rfl) .inl
    · cases hset
  split at hset
  · cases hset
    exact h.updateType c (fun _ => rfl) .inl
  split at hset
  · cases hset
    exact h.updateType c (fun _ => rfl) .inl
  split at hset
  · cases hset
  split at hset
  · cases hset
  · cases hset
    exact h.updateType c (fun _ => rfl) hstored

/-- To define a class below others, with attributes that are there, keeps all that classes name there. -/
theorem Housed.newType (h : s.Housed) {name : String} {module doc : Value} {bases : List Nat} {attrs : Table Value}
    {role : Role} {i : Nat} (hbases : ∀ j ∈ bases, j < s.types.size) (hattrs : s.HoldsAll attrs)
    (hnew : s.newType name module doc bases attrs role = .ok (i, s')) : s'.Housed := by
  unfold Store.newType at hnew
  split at hnew
  · obtain ⟨asked, -, hnew⟩ := Except.bind_eq_ok hnew
    obtain ⟨slots, -, hnew⟩ := Except.bind_eq_ok hnew
    obtain ⟨-, -, hnew⟩ := Except.bind_eq_ok hnew
    obtain ⟨qualname, -, hnew⟩ := Except.bind_eq_ok hnew
    by_cases hcell : attrs.has "__classcell__" = true
    · rw [if_pos hcell] at hnew
      cases hnew
    rw [if_neg hcell] at hnew
    split at hnew
    · rename_i above habove
      cases hnew
      apply h.push
      · intro j hj
        rcases List.mem_cons.mp hj with rfl | hj
        · exact Nat.le_refl _
        · rcases mem_of_ofBases habove j hj with hj | ⟨i, -, hj⟩
          · exact Nat.le_of_lt (hbases j hj)
          · exact Nat.le_of_lt (h.ancestors i j hj)
      · have hown := (hattrs.filter fun e => e.1 ≠ "__qualname__").slots s.types.size slots
        have hnull : s.Holds .null := trivial
        intro key w hw
        change Table.get? (if _ then _ else _) key = some w at hw
        split at hw
        · exact (hown.set "__hash__" hnull).get? hw
        · exact hown.get? hw
    · cases hnew
  · cases hnew

end Store

namespace Work
variable {m : Machine} {base : Nat}

theorem gives_special_of_instance? {v : Value} (h : m.store.instance? v = none) (name : String) :
    (special? v name).Gives m none m := by
  refine (gives_store m).bind fun σ => ?_
  rw [h]
  rfl

theorem gives_truth_of_not_isAsked {v : Value} (h : v.isAsked = false) :
    (truth v).Gives m (m.store.truthy v) m := by
  have hinstance : m.store.instance? v = none := by
    cases v <;> first | rfl | cases h
  have hspecial (name : String) : (special? v name).Gives m none m := gives_special_of_instance? hinstance name
  refine (hspecial _).bind ?_
  cases v <;> first
    | exact (hspecial _).bind fun _ => rfl
    | cases h

/-- Values that do not ask for that are not told their names. -/
theorem gives_each_name {d : Nat} (attrs : Table Value) (hattrs : ∀ e ∈ attrs, (special? e.2 "__set_name__").Gives m none m) :
    ∃ units, (each (fun e : String × Value => do
      match ← special? e.2 "__set_name__" with
      | some method =>
        let _ ← callSpecial method [.type d, .str e.1]
        return ()
      | none => return ()) attrs).Gives m units m := by
  induction attrs with
  | nil => exact ⟨[], fun _ => rfl⟩
  | cons e attrs ih =>
    obtain ⟨hhead, hattrs⟩ := List.forall_mem_cons.mp hattrs
    obtain ⟨units, hunits⟩ := ih hattrs
    exact ⟨() :: units, (hhead.bind fun _ => rfl).bind (hunits.bind fun _ => rfl)⟩

/-- Nothing is told about their names to what a class defines that does not ask for that. -/
theorem gives_nameParts {d : Nat} (h : ∀ e ∈ (m.store.type d).attrs, (special? e.2 "__set_name__").Gives m none m) :
    (nameParts d).Gives m () m := by
  obtain ⟨units, hunits⟩ := gives_each_name _ h
  exact (gives_store m).bind (hunits.bind fun _ => rfl)

/-- A new class is introduced without asking anybody if neither what it defines nor a class above it asks for that. -/
theorem gives_introduce {d : Nat} (h : ∀ e ∈ (m.store.type d).attrs, (special? e.2 "__set_name__").Gives m none m)
    (habove : ∀ j ∈ (m.store.type d).ancestry.tail, (m.store.type j).attrs.get? "__init_subclass__" = none) :
    (introduce d).Gives m () m := by
  refine (gives_nameParts h).bind ((gives_store m).bind fun σ => ?_)
  rw [List.findSome?_eq_none_iff.mpr habove]
  rfl

theorem gives_special_of_isContainer {v : Value} (h : v.isContainer = true) (name : String) :
    (special? v name).Gives m none m := by
  refine gives_special_of_instance? ?_ name
  cases v <;> first | rfl | cases h

end Work

namespace Store
variable {s s' : Store} {base d : Nat} {name : String}

theorem attr?_type (hname : isReserved name = false) (c : Nat) : s.attr? (.type c) name = s.typeAttr? c name := by
  have hne (other : String) (hother : isReserved other = true) : name ≠ other := by
    rintro rfl
    exact absurd (hname.symm.trans hother) (by decide)
  have hclass : s.classAttr? c name = s.typeAttr? c name := by
    unfold classAttr?
    rw [if_neg (hne _ (by decide +kernel)), if_neg (hne _ (by decide +kernel)), if_neg (hne _ (by decide +kernel)),
      if_neg (hne _ (by decide +kernel)), if_neg (hne _ (by decide +kernel))]
  unfold attr?
  rw [show s.ownAttr? (.type c) name = s.typeAttr? c name from hclass]
  cases s.typeAttr? c name with
  | some v => rfl
  | none => exact if_neg (hne _ (by decide +kernel))

/-- A derived class leads a name to what is equal to that to which its base leads it. -/
theorem Derived.looked (h : s.Derived base s' d) (hname : isReserved name = false) :
    Option.Rel (fun v w => w = v ∨ s.SameEntries v s' w) (s.attr? (.type base) name) (s'.attr? (.type d) name) := by
  rw [attr?_type hname, attr?_type hname, typeAttr?, typeAttr?]
  by_cases hcontainer : ∃ v, s.member? base name = some (.value v) ∧ v.isContainer = true
  · obtain ⟨v, hv, hcontainer⟩ := hcontainer
    obtain ⟨w, -, hw, hcopied⟩ := h.containers hname hv hcontainer
    rw [hv, hw]
    exact .some (.inr hcopied.same)
  · have hnone : ∀ v, s.member? base name = some (.value v) → v.isContainer = false := by
      intro v hv
      cases hcase : v.isContainer with
      | false => rfl
      | true => exact absurd ⟨v, hv, hcase⟩ hcontainer
    obtain ⟨-, hsame⟩ := h.others hname hnone
    rw [hsame]
    cases s.member? base name with
    | none => exact .none
    | some member =>
      cases member with
      | value v => exact .some (.inl rfl)
      | inborn j => exact .none

end Store

namespace Work
variable {m : Machine} {base : Nat}

/-- Nobody is asked when a class is derived from an ordinary one. -/
theorem gives_deriveType (hs : m.store.Housed) (hbase : m.store.Ordinary base) : ∃ documented,
    (deriveType base).Gives m (m.store.derive base documented).1
      { m with store := (m.store.derive base documented).2 } := by
  refine ⟨m.store.truthy (m.store.type base).doc, ?_⟩
  obtain ⟨t, hdrawn, -⟩ := Store.drawn_derive hs base (m.store.truthy (m.store.type base).doc)
  generalize hd : (m.store.derive base (m.store.truthy (m.store.type base).doc)).1 = d at hdrawn ⊢
  generalize hs' : (m.store.derive base (m.store.truthy (m.store.type base).doc)).2 = s' at hdrawn ⊢
  have hcontainers : ∀ e ∈ (s'.type d).attrs, e.2.isContainer = true := by
    rw [hdrawn.type_self]
    exact hdrawn.copies.all
  have hintroduce : (introduce d).Gives { m with store := s' } () { m with store := s' } := by
    refine gives_introduce (fun e he => gives_special_of_isContainer (hcontainers e he) _) fun j hj => ?_
    change j ∈ (s'.type d).ancestry.tail at hj
    rw [hdrawn.type_self, hdrawn.ancestry, List.tail_cons] at hj
    show (s'.type j).attrs.get? "__init_subclass__" = none
    rw [hdrawn.kept.type (hs.ancestors base j hj)]
    exact hbase.unhooked j hj
  have hmake : (make fun s => s.derive base (m.store.truthy (m.store.type base).doc)).Gives m d { m with store := s' } := by
    intro σ
    rw [← hd, ← hs']
    rfl
  exact (gives_store m).bind ((gives_truth_of_not_isAsked hbase.doc).bind (hmake.bind (hintroduce.bind fun _ => rfl)))

/-- A derived class keeps what its base looks up, and separates exactly the containers: where the base leads a name to a
dictionary, list or set, the derived class owns a new one with equal entries, in which no class has a part, and it owns
nothing else. Nothing that was there is changed. The same is true of the derived class as a base, and of any class that
is derived later, which has no container in common with it. -/
theorem deriveType_separates (hs : m.store.Housed) (hbase : m.store.Ordinary base) :
    ∃ d s', (deriveType base).Gives m d { m with store := s' } ∧ m.store.Derived base s' d ∧
      (∀ name, Store.isReserved name = false → Option.Rel (fun v w => w = v ∨ m.store.SameEntries v s' w)
        (m.store.attr? (.type base) name) (s'.attr? (.type d) name)) ∧
      s'.Housed ∧ s'.Ordinary d ∧
      ∀ (m₂ : Machine) (base₂ : Nat), (∀ v, s'.Holds v → m₂.store.Holds v) → m₂.store.Housed →
        m₂.store.Ordinary base₂ → ∃ d₂ s₂, (deriveType base₂).Gives m₂ d₂ { m₂ with store := s₂ } ∧
          m₂.store.Derived base₂ s₂ d₂ ∧ ∀ {name name' v w}, (s'.type d).attrs.get? name = some v →
            (s₂.type d₂).attrs.get? name' = some w → v ≠ w := by
  obtain ⟨documented, hgives⟩ := gives_deriveType hs hbase
  obtain ⟨t, hdrawn, hdoc⟩ := Store.drawn_derive hs base documented
  refine ⟨_, _, hgives, hdrawn.derived hs, fun name hname => (hdrawn.derived hs).looked hname, hdrawn.housed hs,
    hdrawn.ordinary hs hbase hdoc, ?_⟩
  intro m₂ base₂ hkept hs₂ hbase₂
  obtain ⟨documented₂, hgives₂⟩ := gives_deriveType hs₂ hbase₂
  obtain ⟨t₂, hdrawn₂, -⟩ := Store.drawn_derive hs₂ base₂ documented₂
  refine ⟨_, _, hgives₂, hdrawn₂.derived hs₂, fun {name name' v w} hv hw hvw => ?_⟩
  -- What the first class owns is still there, and what the second one owns was not there before.
  subst hvw
  rw [hdrawn₂.type_self] at hw
  obtain ⟨-, u, -, -, hcopied⟩ := hdrawn₂.copies.only hw
  exact hcopied.new (hkept v ((hdrawn.housed hs).held hv))

end Work

namespace Store
variable {s : Store}

instance (s : Store) (v : Value) : Decidable (s.Holds v) :=
  match v with
  | .dict i => inferInstanceAs (Decidable (i < s.dicts.size))
  | .list i => inferInstanceAs (Decidable (i < s.lists.size))
  | .set i => inferInstanceAs (Decidable (i < s.sets.size))
  | .null | .bool _ | .int _ | .float _ | .str _ | .spanId _ | .category _ | .tuple _ | .record _ | .view _ | .point _
  | .fault _ | .context _ | .file _ | .function _ | .hook _ | .next _ | .coroutine _ | .awaitable _ | .future _ | .type _
  | .native _ | .worker _ | .processor _ | .ware _ | .step _ | .passage _ | .span _ | .token _ | .slot .. | .trace _ =>
    .isTrue trivial

instance (s : Store) (t : Table Value) : Decidable (s.HoldsAll t) := inferInstanceAs (Decidable (∀ e ∈ t, _))

/-- What classes name is there if this is true of each class of the store. -/
theorem housed_of_types (hancestors : ∀ t ∈ s.types.toList, ∀ j ∈ t.ancestry, j < s.types.size)
    (hheld : ∀ t ∈ s.types.toList, s.HoldsAll t.attrs) (hfits : ∀ e ∈ s.sets.toList, e.Fits) : s.Housed where
  ancestors c j hj := by
    rw [type, Array.getD_eq_getD_getElem?] at hj
    cases hc : s.types[c]? with
    | none =>
      rw [hc] at hj
      cases hj
    | some t =>
      rw [hc] at hj
      exact hancestors t (Array.mem_toList_iff.mpr (Array.mem_of_getElem? hc)) j hj
  held {c name v} hv := by
    rw [type, Array.getD_eq_getD_getElem?] at hv
    cases hc : s.types[c]? with
    | none =>
      rw [hc] at hv
      cases hv
    | some t =>
      rw [hc] at hv
      exact (hheld t (Array.mem_toList_iff.mpr (Array.mem_of_getElem? hc))).get? hv
  fits i := by
    rw [Store.set, Array.getD_eq_getD_getElem?]
    cases hi : s.sets[i]? with
    | none => exact Elements.fits_empty
    | some e => exact hfits e (Array.mem_toList_iff.mpr (Array.mem_of_getElem? hi))

theorem housed_initial : Store.initial.Housed := by
  apply housed_of_types
  · decide +kernel
  · decide +kernel
  · exact nofun

/-- Four classes, two of them below one and above another, where names are redefined as containers and as others. -/
def diamond : Store :=
  let plain (name : String) (bases ancestry : List Nat) (attrs : Table Value) : TypeDef :=
    ⟨name, name, .str "__main__", .null, bases, ancestry, attrs, .plain, extraSlots, none, []⟩
  { Store.initial with
    dicts := Store.initial.dicts ++ #[[(.str "x", .int 1)], [(.str "y", .int 2)]]
    lists := Store.initial.lists ++ #[#[.int 3]]
    sets := #[Elements.empty.add (some 7) (.int 7)]
    types := Store.initial.types ++ #[
      plain "Root" [] [1] [("rules", .dict 1), ("marks", .set 0), ("label", .dict 2)],
      plain "Left" [1] [2, 1] [("rules", .int 5)],
      plain "Right" [1] [3, 1] [("rules", .dict 2), ("label", .str "r"), ("items", .list 1)],
      plain "Leaf" [2, 3] [4, 2, 3, 1] [("items", .list 1)]] }

end Store

namespace Work

theorem deriveType_separates_diamond : Store.diamond.Housed ∧ Store.diamond.Ordinary 4 ∧
    ∃ d s', (deriveType 4).Gives { Machine.initial false with store := .diamond } d
      { Machine.initial false with store := s' } ∧ Store.diamond.Derived 4 s' d ∧ s'.Housed ∧ s'.Ordinary d := by
  have hhoused : Store.diamond.Housed := by
    apply Store.housed_of_types
    · decide +kernel
    · decide +kernel
    · intro e he
      rw [List.mem_singleton.mp he]
      exact Elements.fits_empty.add (by decide) _
  have hordinary : Store.diamond.Ordinary 4 := ⟨by decide +kernel, by decide +kernel⟩
  obtain ⟨d, s', hgives, hderived, -, hhoused', hordinary', -⟩ :=
    deriveType_separates (m := { Machine.initial false with store := .diamond }) hhoused hordinary
  exact ⟨hhoused, hordinary, d, s', hgives, hderived, hhoused', hordinary'⟩

end Work
end Treeworks
