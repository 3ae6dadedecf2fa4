import Treeworks.Proofs.Default.Noted
import Treeworks.Proofs.Lineage.Sets

/-! Copies of containers. The containers among the attributes of a class are copied under their names; each copy has equal
entries, was not there before, and is nobody else's. -/
namespace Treeworks

/-- Whether a value is a dictionary, a list or a set. -/
def Value.isContainer : Value → Bool
  | .dict _ | .list _ | .set _ => true
  | _ => false

namespace Table
variable {α : Type} {t u : Table α}

/-- Whether no key comes twice. -/
def Distinct (t : Table α) : Prop := t.keys.Nodup

theorem mem_keys_set {key k : String} {value : α} : k ∈ (t.set key value).keys ↔ k ∈ t.keys ∨ k = key := by
  induction t with
  | nil => simp [set, keys]
  | cons e t ih =>
    by_cases h : e.1 = key
    · simp only [set, h, if_true, keys, List.map_cons, List.mem_cons]
      tauto
    · simp only [keys] at ih
      simp only [set, h, if_false, keys, List.map_cons, List.mem_cons, ih]
      tauto

theorem mem_keys_of_get? {key : String} {v : α} (h : t.get? key = some v) : key ∈ t.keys := by
  obtain ⟨e, he, rfl, -⟩ := exists_mem_of_get? h
  exact List.mem_map_of_mem he

theorem Distinct.set (h : t.Distinct) (key : String) (value : α) : (t.set key value).Distinct := by
  induction t with
  | nil => simp [Table.set, Distinct, keys]
  | cons e t ih =>
    obtain ⟨hnot, ht⟩ := List.nodup_cons.mp h
    by_cases he : e.1 = key
    · rw [Table.set, if_pos he]
      exact List.nodup_cons.mpr ⟨hnot, ht⟩
    · rw [Table.set, if_neg he]
      refine List.nodup_cons.mpr ⟨fun hmem => ?_, ih ht⟩
      exact (mem_keys_set.mp hmem).elim hnot he

theorem Distinct.fill (h : t.Distinct) (u : Table α) : (t.fill u).Distinct := by
  induction u generalizing t with
  | nil => exact h
  | cons e u ih =>
    change (Table.fill (if t.has e.1 then t else t.set e.1 e.2) u).Distinct
    split
    · exact ih h
    · exact ih (h.set _ _)

end Table

namespace Store
variable {s s' s'' : Store} {v w : Value}

/-! ### Objects that are there -/

/-- Whether a container is there. -/
def Holds (s : Store) : Value → Prop
  | .dict i => i < s.dicts.size
  | .list i => i < s.lists.size
  | .set i => i < s.sets.size
  | _ => True

/-- Whether containers and classes are as they were, with perhaps more of them. -/
structure Extends (s s' : Store) : Prop where
  dicts : Grows s.dicts s'.dicts
  lists : Grows s.lists s'.lists
  sets : Grows s.sets s'.sets
  types : Grows s.types s'.types

theorem Extends.refl (s : Store) : s.Extends s := ⟨.refl _, .refl _, .refl _, .refl _⟩

theorem Extends.trans (h : s.Extends s') (h' : s'.Extends s'') : s.Extends s'' :=
  ⟨h.dicts.trans h'.dicts, h.lists.trans h'.lists, h.sets.trans h'.sets, h.types.trans h'.types⟩

theorem Extends.holds (h : s.Extends s') (hv : s.Holds v) : s'.Holds v := by
  cases v with
  | dict i => exact Nat.lt_of_lt_of_le hv h.dicts.size
  | list i => exact Nat.lt_of_lt_of_le hv h.lists.size
  | set i => exact Nat.lt_of_lt_of_le hv h.sets.size
  | _ => trivial

theorem Extends.type (h : s.Extends s') {c : Nat} (hc : c < s.types.size) : s'.type c = s.type c :=
  h.types.same c hc _

/-- Whether all containers in a table are there. -/
def HoldsAll (s : Store) (t : Table Value) : Prop := ∀ e ∈ t, s.Holds e.2

theorem HoldsAll.get? {t : Table Value} (h : s.HoldsAll t) {name : String} (hv : t.get? name = some v) : s.Holds v := by
  obtain ⟨e, he, -, rfl⟩ := Table.exists_mem_of_get? hv
  exact h e he

theorem HoldsAll.filter {t : Table Value} (h : s.HoldsAll t) (f : String × Value → Bool) : s.HoldsAll (t.filter f) :=
  fun e he => h e (List.mem_of_mem_filter he)

theorem HoldsAll.set {t : Table Value} (h : s.HoldsAll t) (key : String) (hv : s.Holds v) : s.HoldsAll (t.set key v) := by
  intro e he
  induction t with
  | nil =>
    rw [List.mem_singleton.mp he]
    exact hv
  | cons e' t ih =>
    obtain ⟨hhead, htail⟩ := List.forall_mem_cons.mp h
    rw [Table.set] at he
    split at he
    · rcases List.mem_cons.mp he with rfl | he
      · exact hv
      · exact htail e he
    · rcases List.mem_cons.mp he with rfl | he
      · exact hhead
      · exact ih htail he

theorem HoldsAll.slots {t : Table Value} (h : s.HoldsAll t) (i : Nat) (names : List String) :
    s.HoldsAll (names.foldl (fun t name => t.set name (.slot i name)) t) := by
  have hslot (name : String) : s.Holds (.slot i name) := trivial
  induction names generalizing t with
  | nil => exact h
  | cons name names ih => exact ih (h.set name (hslot name))

/-- Whether two containers, each in its store, are of one kind and have equal entries. -/
def SameEntries (s : Store) (v : Value) (s' : Store) (w : Value) : Prop :=
  match v, w with
  | .dict i, .dict j => s'.dict j = s.dict i
  | .list i, .list j => s'.list j = s.list i
  | .set i, .set j => (s'.set j).toList.Perm (s.set i).toList
  | _, _ => False

theorem SameEntries.isContainer (h : s.SameEntries v s' w) : w.isContainer = true := by
  cases w <;> first | rfl | (cases v <;> cases h)

theorem SameEntries.extends_left (hext : s.Extends s') (hv : s.Holds v) (h : s'.SameEntries v s'' w) :
    s.SameEntries v s'' w := by
  have hlist (i : Nat) (hi : i < s.lists.size) : s'.list i = s.list i := congrArg _ (hext.lists.same i hi _)
  cases v <;> cases w <;> try exact h
  · exact Eq.trans h (hlist _ hv)
  · exact Eq.trans h (hext.dicts.same _ hv _)
  · rename_i i j
    have hset : s'.set i = s.set i := hext.sets.same _ hv _
    show (s''.set j).toList.Perm (s.set i).toList
    rw [← hset]
    exact h

theorem SameEntries.extends_right (hext : s'.Extends s'') (hw : s'.Holds w) (h : s.SameEntries v s' w) :
    s.SameEntries v s'' w := by
  have hlist (i : Nat) (hi : i < s'.lists.size) : s''.list i = s'.list i := congrArg _ (hext.lists.same i hi _)
  cases v <;> cases w <;> try exact h
  · exact Eq.trans (hlist _ hw) h
  · exact Eq.trans (hext.dicts.same _ hw _) h
  · rename_i i j
    have hset : s''.set j = s'.set j := hext.sets.same _ hw _
    show (s''.set j).toList.Perm _
    rw [hset]
    exact h

/-- Whether a container is a copy of another one that was not there before. -/
structure Copied (s : Store) (v : Value) (s' : Store) (w : Value) : Prop where
  same : s.SameEntries v s' w
  new : ¬ s.Holds w
  there : s'.Holds w

theorem Copied.extends_left (hext : s.Extends s') (hv : s.Holds v) (h : s'.Copied v s'' w) : s.Copied v s'' w where
  same := h.same.extends_left hext hv
  new hw := h.new (hext.holds hw)
  there := h.there

theorem Copied.extends_right (hext : s'.Extends s'') (h : s.Copied v s' w) : s.Copied v s'' w where
  same := h.same.extends_right hext h.there
  new := h.new
  there := hext.holds h.there

/-! ### Copies of containers -/

theorem shallowCopy?_isSome : (s.shallowCopy? v).isSome = v.isContainer := by
  cases v <;> rfl

theorem set_push (s : Store) (e : Elements) (j : Nat) :
    Store.set { s with sets := s.sets.push e } j = if j = s.sets.size then e else s.set j := by
  simp only [Store.set, Array.getD_eq_getD_getElem?, Array.getElem?_push]
  split <;> rfl

theorem shallowCopy?_spec (hfits : ∀ i, (s.set i).Fits) (h : s.shallowCopy? v = some (w, s')) :
    s.Copied v s' w ∧ s.Extends s' ∧ (∀ i, (s'.set i).Fits) := by
  cases v with
  | dict i =>
    cases h
    refine ⟨⟨?_, Nat.lt_irrefl _, ?_⟩, { Extends.refl s with dicts := .push _ _ }, hfits⟩
    · show Store.dict { s with dicts := s.dicts.push (s.dict i) } s.dicts.size = s.dict i
      simp [dict]
    · show s.dicts.size < (s.dicts.push _).size
      simp
  | list i =>
    cases h
    refine ⟨⟨?_, Nat.lt_irrefl _, ?_⟩, { Extends.refl s with lists := .push _ _ }, hfits⟩
    · show Store.list { s with lists := s.lists.push (s.list i).toArray } s.lists.size = s.list i
      simp [list]
    · show s.lists.size < (s.lists.push _).size
      simp
  | set i =>
    cases h
    refine ⟨⟨?_, Nat.lt_irrefl _, ?_⟩, { Extends.refl s with sets := .push _ _ }, fun j => ?_⟩
    · show (Store.set { s with sets := s.sets.push (s.set i).copied } s.sets.size).toList.Perm (s.set i).toList
      rw [set_push, if_pos rfl]
      exact (hfits i).toList_copied
    · show s.sets.size < (s.sets.push _).size
      simp
    · show (Store.set { s with sets := s.sets.push (s.set i).copied } j).Fits
      rw [set_push]
      split
      · exact (hfits i).copied
      · exact hfits j
  | _ => cases h

/-- What the copies of the containers in a table are: a name has one just if it is not reserved and leads to a container,
and no two names have the same. -/
structure Copies (s : Store) (t : Table Value) (s' : Store) (copies : Table Value) : Prop where
  copied : ∀ {name v}, t.get? name = some v → isReserved name = false → v.isContainer = true →
    ∃ w, copies.get? name = some w ∧ s.Copied v s' w
  only : ∀ {name w}, copies.get? name = some w →
    isReserved name = false ∧ ∃ v, t.get? name = some v ∧ v.isContainer = true ∧ s.Copied v s' w
  apart : ∀ {name name' w}, copies.get? name = some w → copies.get? name' = some w → name = name'
  all : ∀ e ∈ copies, e.2.isContainer = true

theorem Copies.extends_right {t copies : Table Value} (hext : s'.Extends s'') (h : s.Copies t s' copies) :
    s.Copies t s'' copies where
  copied hv hname hcontainer := by
    obtain ⟨w, hw, hcopied⟩ := h.copied hv hname hcontainer
    exact ⟨w, hw, hcopied.extends_right hext⟩
  only hw := by
    obtain ⟨hname, v, hv, hcontainer, hcopied⟩ := h.only hw
    exact ⟨hname, v, hv, hcontainer, hcopied.extends_right hext⟩
  apart := h.apart
  all := h.all

theorem ownContainers_copies (hfits : ∀ i, (s.set i).Fits) {t : Table Value} (hdistinct : t.Distinct)
    (hheld : s.HoldsAll t) :
    s.Extends (s.ownContainers t).2 ∧ (∀ i, ((s.ownContainers t).2.set i).Fits) ∧
      s.Copies t (s.ownContainers t).2 (s.ownContainers t).1 := by
  induction t generalizing s with
  | nil => exact ⟨.refl s, hfits, nofun, nofun, nofun, nofun⟩
  | cons e t ih =>
    obtain ⟨key, v⟩ := e
    obtain ⟨hnew, hdistinct⟩ := List.nodup_cons.mp hdistinct
    obtain ⟨hv, hheld⟩ := List.forall_mem_cons.mp hheld
    have hnone : Table.get? t key = none := by
      cases hget : Table.get? t key with
      | none => rfl
      | some u => exact absurd (Table.mem_keys_of_get? hget) hnew
    have hcons (name : String) : Table.get? ((key, v) :: t) name = if key = name then some v else Table.get? t name := rfl
    -- An entry that is left out is none of the names that have a copy.
    have hskip (hleft : isReserved key = true ∨ v.isContainer = false) :
        s.Extends (s.ownContainers t).2 ∧ (∀ i, ((s.ownContainers t).2.set i).Fits) ∧
          s.Copies ((key, v) :: t) (s.ownContainers t).2 (s.ownContainers t).1 := by
      obtain ⟨hext, hfits', hcopies⟩ := ih hfits hdistinct hheld
      refine ⟨hext, hfits', ?_, ?_, hcopies.apart, hcopies.all⟩
      · intro name u hget hname hu
        rw [hcons] at hget
        split at hget
        · subst name
          cases hget
          rcases hleft with h | h
          · exact absurd (h.symm.trans hname) (by decide)
          · exact absurd (h.symm.trans hu) (by decide)
        · exact hcopies.copied hget hname hu
      · intro name w hget
        obtain ⟨hname, u, hu, hrest⟩ := hcopies.only hget
        refine ⟨hname, u, ?_, hrest⟩
        rw [hcons, if_neg, hu]
        rintro rfl
        rw [hnone] at hu
        cases hu
    rw [ownContainers]
    split
    · exact hskip (.inl ‹_›)
    rename_i hkey
    split
    · rename_i hcopy
      refine hskip (.inr ?_)
      rw [← shallowCopy?_isSome (s := s), hcopy]
      rfl
    rename_i copy s₁ hcopy
    have hcontainer : v.isContainer = true := by
      rw [← shallowCopy?_isSome (s := s), hcopy]
      rfl
    obtain ⟨hcopied, hext₁, hfits₁⟩ := shallowCopy?_spec hfits hcopy
    obtain ⟨hext₂, hfits₂, hcopies⟩ := ih hfits₁ hdistinct fun e he => hext₁.holds (hheld e he)
    have hwhole : s.Copied v (s₁.ownContainers t).2 copy := hcopied.extends_right hext₂
    have hget (name : String) : Table.get? ((key, copy) :: (s₁.ownContainers t).1) name =
        if key = name then some copy else (s₁.ownContainers t).1.get? name := rfl
    -- The copy was there before the others were made.
    have hother {name : String} {w : Value} (hw : (s₁.ownContainers t).1.get? name = some w) : w ≠ copy := by
      rintro rfl
      obtain ⟨-, u, -, -, hu⟩ := hcopies.only hw
      exact hu.new hcopied.there
    refine ⟨hext₁.trans hext₂, hfits₂, ?_, ?_, ?_, List.forall_mem_cons.mpr ⟨hcopied.same.isContainer, hcopies.all⟩⟩
    · intro name u hu hname hcontainer'
      rw [hcons] at hu
      rw [hget]
      split at hu
      · cases hu
        exact ⟨copy, if_pos ‹_›, hwhole⟩
      · obtain ⟨w, hw, hcopy'⟩ := hcopies.copied hu hname hcontainer'
        obtain ⟨e, he, -, rfl⟩ := Table.exists_mem_of_get? hu
        exact ⟨w, (if_neg ‹_›).trans hw, hcopy'.extends_left hext₁ (hheld e he)⟩
    · intro name w hw
      rw [hget] at hw
      split at hw
      · cases hw
        refine ⟨by simpa [‹key = name›] using hkey, v, ?_, hcontainer, hwhole⟩
        rw [hcons, if_pos ‹_›]
      · obtain ⟨hname, u, hu, hcontainer', hcopy'⟩ := hcopies.only hw
        obtain ⟨e, he, -, rfl⟩ := Table.exists_mem_of_get? hu
        refine ⟨hname, e.2, ?_, hcontainer', hcopy'.extends_left hext₁ (hheld e he)⟩
        rw [hcons, if_neg ‹_›, hu]
    · intro name name' w hw hw'
      rw [hget] at hw hw'
      split at hw <;> split at hw'
      · exact ‹key = name›.symm.trans ‹_›
      · cases hw
        exact absurd rfl (hother hw')
      · cases hw'
        exact absurd rfl (hother hw)
      · exact hcopies.apart hw hw'

end Store
end Treeworks
