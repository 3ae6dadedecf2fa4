import Treeworks.Answer
import Treeworks.Proofs.Default.Noted
import Treeworks.Proofs.Own.Making

/-! Families that are built, and classes that are defined below them. A new class changes none that is there. A family is
regular if no class above it says how instances are made, or how their attributes are read and stored. However many families
are built, as long as there are no instances there is nothing that these could share. -/
namespace Treeworks

theorem Table.get?_filter_of_ne {α : Type} (t : Table α) {key other : String} (h : key ≠ other) :
    Table.get? (t.filter fun e => e.1 ≠ other) key = t.get? key := by
  induction t with
  | nil => rfl
  | cons e t ih =>
    obtain ⟨k, v⟩ := e
    rw [get?_filter_cons, ih, get?]
    by_cases hk : k = key
    · subst hk
      simp [h]
    · simp [hk]

/-- A class below one that has nothing above it has nothing above but that one. -/
theorem Ancestry.ofBases_single {ancestry : Nat → List Nat} {i : Nat} (h : ancestry i = [i]) :
    ofBases ancestry [i] = some [i] := by
  have hdups : [i].eraseDups.length = [i].length := rfl
  have hsequences : ([i].map ancestry ++ [[i]]).filter (!·.isEmpty) = [[i], [i]] := by simp [h]
  have hhead : nextHead? [[i], [i]] = some i := rfl
  have hdrop : dropHead i [[i], [i]] = [] := by simp [dropHead]
  unfold ofBases
  rw [if_neg (not_not.mpr hdups), hsequences]
  show merge 2 [[i], [i]] = some [i]
  rw [merge.eq_3 _ _ (by simp), hhead]
  dsimp only
  rw [hdrop]
  rfl

namespace Store
variable {made : Value → List Value} {F K : Set Nat} {s s' : Store} {c : Nat} {name : String} {v : Value}

/-- Whether a class of families is tacit: it says neither how instances are made and prepared, nor how their attributes are
read and stored. What it offers for the name, the parts and the data of a family can be used as such. -/
structure Tacit (K : Set Nat) (s : Store) (j : Nat) : Prop where
  role : (s.type j).role = .plain ∨ (s.type j).role = .family
  silent : ∀ name ∈ ["__new__", "__init__", "__getattribute__", "__setattr__"], (s.type j).attrs.get? name = none
  ware : ∀ v, (s.type j).attrs.get? "ware" = some v → v.isInert = true
  named : ∀ v, (s.type j).attrs.get? "name" = some v → ∃ t, v = .str t
  part : ∀ name ∈ ["Parser", "Compiler"], ∀ v, (s.type j).attrs.get? name = some v →
    v = .null ∨ ∃ i ∈ K, v = .type i ∧ s.Ordinary i
  data : ∀ d, (s.type j).attrs.get? "data" = some d → s.Mute d ∧ ∀ x, s.instance? d = some x → x.type ∈ K

/-- Whether a class is the one of all families, which offers a name, parts and data. -/
structure Basic (s : Store) (j : Nat) : Prop where
  role : (s.type j).role = .family
  offers : ∀ name ∈ ["name", "Parser", "Compiler", "data"], (s.type j).attrs.get? name ≠ none

section
variable (htacit : ∀ j ∈ (s.type c).ancestry, s.Tacit K j)
include htacit

/-- What a family offers under a name is what a class above it defines, or what families are born with. -/
theorem offered_of_tacit {member : Member} (h : s.member? c name = some member) :
    ∃ j ∈ (s.type c).ancestry, (∃ v, member = .value v ∧ (s.type j).attrs.get? name = some v) ∨
      member = .inborn j ∧ (s.type j).role = .family ∧ name ∈ Role.family.methods := by
  rw [member?_eq] at h
  obtain ⟨j, hj, hoffer⟩ := List.exists_of_findSome?_eq_some h
  refine ⟨j, hj, ?_⟩
  rw [offer?] at hoffer
  split at hoffer
  · rename_i v hv
    cases hoffer
    exact .inl ⟨v, rfl, hv⟩
  · split at hoffer
    · rename_i hborn
      cases hoffer
      obtain hrole | hrole := (htacit j hj).role <;> rw [hrole] at hborn
      · cases hborn
      · exact .inr ⟨rfl, hrole, List.contains_iff_mem.mp hborn⟩
    · cases hoffer

theorem defines_of_tacit (h : s.typeAttr? c name = some v) :
    ∃ j ∈ (s.type c).ancestry, (s.type j).attrs.get? name = some v := by
  obtain ⟨j, hj, ⟨w, hw, hget⟩ | ⟨hw, -⟩⟩ := offered_of_tacit htacit (typeAttr?_eq_some.mp h)
  · cases hw
    exact ⟨j, hj, hget⟩
  · cases hw

theorem typeAttr?_of_tacit (hname : name ∈ ["__getattribute__", "__setattr__"]) : s.typeAttr? c name = none := by
  cases h : s.typeAttr? c name with
  | none => rfl
  | some v =>
    obtain ⟨j, hj, hget⟩ := defines_of_tacit htacit h
    have hsilent := (htacit j hj).silent name (by grind)
    cases hsilent.symm.trans hget

variable {basic : Nat} (hbasic : basic ∈ (s.type c).ancestry) (hbase : s.Basic basic)
include hbasic hbase

theorem inborn_of_tacit (hname : name ∈ ["__new__", "__init__"]) : ∃ j, s.Offers c name j := by
  have hborn : name ∈ Role.family.methods := by
    simp only [List.mem_cons, List.not_mem_nil, or_false] at hname
    obtain rfl | rfl := hname <;> decide
  have hsilent {j : Nat} (hj : j ∈ (s.type c).ancestry) : (s.type j).attrs.get? name = none :=
    (htacit j hj).silent name (by grind)
  obtain ⟨member, hmember⟩ : ∃ member, s.member? c name = some member := by
    rw [← Option.isSome_iff_exists, member?_eq, List.findSome?_isSome_iff]
    refine ⟨basic, hbasic, ?_⟩
    rw [offer?, hsilent hbasic, hbase.role, if_pos (List.contains_iff_mem.mpr hborn)]
    rfl
  obtain ⟨j, hj, ⟨w, -, hget⟩ | ⟨rfl, hrole, -⟩⟩ := offered_of_tacit htacit hmember
  · cases (hsilent hj).symm.trans hget
  · exact ⟨j, hmember, hrole⟩

/-- What the class of all families offers, every family offers. -/
theorem offers_of_tacit (name : String) (hname : name ∈ ["name", "Parser", "Compiler", "data"]) :
    ∃ v, s.typeAttr? c name = some v ∧ ∃ j ∈ (s.type c).ancestry, (s.type j).attrs.get? name = some v := by
  have hplain : name ∉ Role.family.methods := by
    simp only [List.mem_cons, List.not_mem_nil, or_false] at hname
    obtain rfl | rfl | rfl | rfl := hname <;> decide
  obtain ⟨member, hmember⟩ : ∃ member, s.member? c name = some member := by
    rw [← Option.isSome_iff_exists, member?_eq, List.findSome?_isSome_iff]
    refine ⟨basic, hbasic, ?_⟩
    obtain ⟨v, hv⟩ := Option.ne_none_iff_exists'.mp (hbase.offers name hname)
    rw [offer?, hv]
    rfl
  obtain ⟨j, hj, ⟨v, rfl, hget⟩ | ⟨-, -, hborn⟩⟩ := offered_of_tacit htacit hmember
  · exact ⟨v, typeAttr?_eq_some.mpr hmember, j, hj, hget⟩
  · exact absurd hborn hplain

/-- A family is regular if the classes above it are tacit. -/
theorem Regular.of_tacit (hfamily : s.descends c 0 = true) (hself : s.descends c c = true) (hdict : s.givesDict c = true) :
    s.Regular K c where
  family := hfamily
  self := hself
  makes := (inborn_of_tacit htacit hbasic hbase (by decide)).imp fun _ h => h.1
  prepares := inborn_of_tacit htacit hbasic hbase (by decide)
  direct := typeAttr?_of_tacit htacit (by decide)
  stores := typeAttr?_of_tacit htacit (by decide)
  dict := hdict
  ware v hv := by
    obtain ⟨j, hj, hget⟩ := defines_of_tacit htacit hv
    exact (htacit j hj).ware v hget
  named := by
    obtain ⟨v, hv, j, hj, hget⟩ := offers_of_tacit htacit hbasic hbase "name" (by decide)
    obtain ⟨t, rfl⟩ := (htacit j hj).named v hget
    exact ⟨t, hv⟩
  part name hname := by
    obtain ⟨v, hv, j, hj, hget⟩ := offers_of_tacit htacit hbasic hbase name (by grind)
    exact ⟨v, hv, (htacit j hj).part name hname v hget⟩
  data := by
    obtain ⟨d, hd, j, hj, hget⟩ := offers_of_tacit htacit hbasic hbase "data" (by decide)
    exact ⟨d, hd, (htacit j hj).data d hget⟩

end

/-- What a class is that has been defined below some others: it is new, and all containers that it has were given to it. No
other class has changed. -/
structure Defines (s : Store) (bases : List Nat) (attrs : Table Value) (s' : Store) (c : Nat) : Prop where
  new : c = s.types.size
  kept : ∃ t, s' = { s with types := s.types.push t }
  ancestry : ∃ above, Ancestry.ofBases (fun i => (s.type i).ancestry) bases = some above ∧
    (s'.type c).ancestry = c :: above
  containers : ∀ key v, (s'.type c).attrs.get? key = some v → v.isContainer = true → ∃ e ∈ attrs, e.2 = v

theorem mem_of_get?_slots {t : Table Value} {i : Nat} {slots : List String} {key : String} (hv : v.isContainer = true)
    (h : (slots.foldl (fun t name => t.set name (.slot i name)) t).get? key = some v) : t.get? key = some v := by
  induction slots generalizing t with
  | nil => exact h
  | cons slot slots ih =>
    have hget := ih h
    rw [Table.get?_set] at hget
    split at hget
    · cases hget
      cases hv
    · exact hget

section
variable {name : String} {module doc : Value} {bases : List Nat} {attrs : Table Value} {role : Role}
  (h : s.newType name module doc bases attrs role = .ok (c, s'))
include h

theorem defines_of_newType : s.Defines bases attrs s' c := by
  unfold newType at h
  split at h
  · obtain ⟨asked, -, h⟩ := Except.bind_eq_ok h
    obtain ⟨slots, -, h⟩ := Except.bind_eq_ok h
    obtain ⟨-, -, h⟩ := Except.bind_eq_ok h
    obtain ⟨qualname, -, h⟩ := Except.bind_eq_ok h
    by_cases hcell : attrs.has "__classcell__" = true
    · rw [if_pos hcell] at h
      cases h
    rw [if_neg hcell] at h
    split at h
    · rename_i above habove
      cases h
      refine ⟨rfl, ⟨_, rfl⟩, ⟨above, habove, ?_⟩, fun key v hv hcontainer => ?_⟩
      · rw [type_push, if_pos rfl]
      · rw [type_push, if_pos rfl] at hv
        -- Slots and what it says of hashes come to what it was given, and neither is a container.
        have hslots : Table.get? (slots.foldl (fun (t : Table Value) name => t.set name (.slot s.types.size name))
            (attrs.filter fun e => e.1 ≠ "__qualname__")) key = some v := by
          change Table.get? (if _ then _ else _) key = some v at hv
          split at hv
          · rw [Table.get?_set] at hv
            split at hv
            · cases hv
              cases hcontainer
            · exact hv
          · exact hv
        obtain ⟨e, he, -, hev⟩ := Table.exists_mem_of_get? (mem_of_get?_slots hcontainer hslots)
        exact ⟨e, (List.mem_filter.mp he).1, hev⟩
    · cases h
  · cases h

/-- A class that asks for no slots has what it was given but its qualified name and what it says of hashes, and its
instances have dictionaries. -/
theorem type_of_newType (hslots : attrs.get? "__slots__" = none) : (s'.type c).role = role ∧ s'.givesDict c = true ∧
    (∀ key ∉ ["__qualname__", "__hash__"], (s'.type c).attrs.get? key = attrs.get? key) ∧
    ∀ {P : Value → Prop}, P .null → (∀ e ∈ attrs, P e.2) → ∀ e ∈ (s'.type c).attrs, P e.2 := by
  unfold newType at h
  split at h
  · rw [hslots] at h
    obtain ⟨asked, hasked, h⟩ := Except.bind_eq_ok h
    cases hasked
    obtain ⟨slots, hslots, h⟩ := Except.bind_eq_ok h
    cases (slotNames_nil s _ _ _).symm.trans hslots
    obtain ⟨-, -, h⟩ := Except.bind_eq_ok h
    obtain ⟨qualname, -, h⟩ := Except.bind_eq_ok h
    by_cases hcell : attrs.has "__classcell__" = true
    · rw [if_pos hcell] at h
      cases h
    rw [if_neg hcell] at h
    split at h
    · cases h
      rw [givesDict, type_push, if_pos rfl]
      refine ⟨rfl, by simp [extraSlots], fun key hkey => ?_, fun {P} hnull hattrs => ?_⟩
      · have hqualname : key ≠ "__qualname__" := fun he => hkey (he ▸ by simp)
        have hhash : key ≠ "__hash__" := fun he => hkey (he ▸ by simp)
        change Table.get? (if _ then _ else _) key = _
        split
        · exact (Table.get?_set _ _ _ _).trans ((if_neg hhash.symm).trans (Table.get?_filter_of_ne attrs hqualname))
        · exact Table.get?_filter_of_ne attrs hqualname
      · have hown : ∀ e ∈ List.filter (fun e : String × Value => e.1 ≠ "__qualname__") attrs, P e.2 := fun e he =>
          hattrs e (List.mem_filter.mp he).1
        unfold TypeDef.attrs
        dsimp only
        split
        · exact Table.forall_set hown _ hnull
        · exact hown
    · cases h
  · cases h

end

namespace Defines
variable {bases : List Nat} {attrs : Table Value} (h : s.Defines bases attrs s' c)
include h

theorem type_of_ne {j : Nat} (hj : j ≠ c) : s'.type j = s.type j := by
  obtain ⟨t, rfl⟩ := h.kept
  rw [type_push, if_neg (h.new ▸ hj)]

/-- A class that was there before is the same. -/
theorem type_of_stands {j : Nat} (hj : s.Stands (.type j)) : s'.type j = s.type j := by
  apply h.type_of_ne
  rintro rfl
  exact Nat.lt_irrefl _ (h.new ▸ hj)

theorem self : s'.descends c c = true := by
  obtain ⟨above, -, hancestry⟩ := h.ancestry
  rw [descends, hancestry]
  exact List.contains_iff_mem.mpr (List.mem_cons_self ..)

theorem enlarges : s.Enlarges s' := by
  obtain ⟨t, rfl⟩ := h.kept
  exact { Enlarges.refl s with types := .push _ _ }

theorem stands : s'.Stands (.type c) := by
  obtain ⟨t, rfl⟩ := h.kept
  rw [h.new]
  exact Nat.lt_of_lt_of_eq (Nat.lt_succ_self _) (Array.size_push _).symm

omit h in
theorem ancestry_of_single {i : Nat} (h : s.Defines [i] attrs s' c) (hi : (s.type i).ancestry = [i]) :
    (s'.type c).ancestry = [c, i] := by
  obtain ⟨above, habove, hancestry⟩ := h.ancestry
  have hsingle : Ancestry.ofBases (fun k => (s.type k).ancestry) [i] = some [i] := Ancestry.ofBases_single hi
  rw [hancestry, Option.some.inj (habove.symm.trans hsingle)]

end Defines

theorem Regular.mono {L : Set Nat} (h : s.Regular K c) (hKL : K ⊆ L) : s.Regular L c :=
  { h with
    part := fun name hname => (h.part name hname).imp fun _ hv =>
      hv.imp_right fun hpart => hpart.imp_right fun ⟨i, hi, hv⟩ => ⟨i, hKL hi, hv⟩
    data := h.data.imp fun _ hd => ⟨hd.1, hd.2.1, fun x hx => hKL (hd.2.2 x hx)⟩ }

section
variable {m : Machine} {bases : List Nat} {attrs : Table Value}

/-- As long as there are no instances, a class can be defined below classes in common, and be one of them, if all that it
has is there, and its data if it is a family. -/
theorem Defines.isolated (hdefines : m.store.Defines bases attrs s' c) (h : Isolated made F K ∅ m) (hhoused : s'.Housed)
    (hbases : ∀ i ∈ bases, i ∈ K) (hattrs : m.store.HoldsAll attrs)
    (hdata : s'.descends c 0 = true → ∀ d, s'.typeAttr? c "data" = some d → ∀ v, s'.Within made d v → v.isMutable = true →
      s'.Stands v) : Isolated made F (insert c K) ∅ { m with store := s' } := by
  have hold {j : Nat} (hj : j ∈ K) : s'.type j = m.store.type j := hdefines.type_of_stands (h.standing j hj)
  have hlasts (j : Nat) (hj : j ∈ K) : m.store.Lasts s' j := .inl (hold hj)
  have hsame (v : Value) (hv : m.store.Common made K v) : m.store.SameAs s' v := hdefines.enlarges.sameAs (h.ground v hv)
  have hground (v : Value) (hv : s'.Common made K v) : s'.Stands v :=
    hdefines.enlarges.stands (h.ground v ((Store.common_congr h.closed hlasts hsame).mp hv))
  -- As there are no instances, what is left to be shown is about the classes alone.
  refine ⟨⟨h.tame.plain, h.tame.lists⟩, hhoused, fun i hi j hj => ?_, fun i hi => ?_,
    h.families.trans (Set.subset_insert c K), fun i hi => ?_, fun v hv => ?_, nofun, nofun, nofun⟩
  · obtain rfl | hi := hi
    · obtain ⟨above, habove, hancestry⟩ := hdefines.ancestry
      rw [hancestry] at hj
      obtain rfl | hj := List.mem_cons.mp hj
      · exact .inl rfl
      · obtain hj | ⟨i, hi, hj⟩ := Store.mem_of_ofBases habove j hj
        · exact .inr (hbases j hj)
        · exact .inr (h.closed i (hbases i hi) j hj)
    · exact .inr (h.closed i hi j (hold hi ▸ hj))
  · obtain rfl | hi := hi
    · exact hdefines.stands
    · exact hdefines.enlarges.stands (h.standing i hi)
  · exact ((h.regular i hi).of_lasts h.closed hlasts (h.families hi) hsame).mono (Set.subset_insert c K)
  · cases hv with
    | table hi htabled =>
      obtain rfl | hi := hi
      · obtain ⟨key, hreserved, hget, hcontainer⟩ := htabled
        obtain ⟨e, he, rfl⟩ := hdefines.containers key v hget hcontainer
        exact hdefines.enlarges.stands ((Store.stands_of_isContainer hcontainer).mpr (hattrs e he))
      · exact hground v (.table hi htabled)
    | data hi hfamily hd hin hmutable =>
      obtain rfl | hi := hi
      · exact hdata hfamily _ hd v hin hmutable
      · exact hground v (.data hi hfamily hd hin hmutable)

/-- A class in common that is regular is one of the families. -/
theorem Regular.founds (hregular : m.store.Regular K c) (h : Isolated made F K ∅ m) (hc : c ∈ K) :
    Isolated made (insert c F) K ∅ m :=
  { h with
    families := Set.insert_subset hc h.families
    regular := fun i hi => by
      obtain rfl | hi := hi
      · exact hregular
      · exact h.regular i hi
    equipped := nofun }

end

end Store

open Store in
/-- What can become of the machine that a script starts on as long as no instances are made: families are built below that
of all families, and classes below others, and anything may be done meanwhile that changes none of them. -/
inductive Founded (made : Value → List Value) : Set Nat → Set Nat → Machine → Prop
  | initial (inLoop : Bool) (empty : made .null = []) : Founded made {0} {0} (.initial inLoop)
  /-- Something is done that leaves classes as they are, with what belongs to them. -/
  | elsewhere {F K m m'} (before : Founded made F K m) (V : Value → Prop) (retains : m.Retains V m')
      (off : ∀ v, V v → ¬ m.store.Common made K v) (types : ∀ c ∈ K, ¬ V (.type c)) : Founded made F K m'
  /-- A class is defined that is no family. -/
  | define {F K m s' name module doc bases attrs role c} (before : Founded made F K m) (below : ∀ i ∈ bases, i ∈ K)
      (there : m.store.HoldsAll attrs) (new : m.store.newType name module doc bases attrs role = .ok (c, s'))
      (plain : s'.descends c 0 = false) : Founded made F (insert c K) { m with store := s' }
  /-- A family is defined, below others or below that of all families. -/
  | family {F K m s' name module doc bases attrs c} (before : Founded made F K m) (below : ∀ i ∈ bases, i ∈ K)
      (there : m.store.HoldsAll attrs) (new : m.store.newType name module doc bases attrs .plain = .ok (c, s'))
      (family : s'.descends c 0 = true) (dict : s'.givesDict c = true)
      (tacit : ∀ j ∈ (s'.type c).ancestry, s'.Tacit (insert c K) j)
      (data : ∀ d, s'.typeAttr? c "data" = some d → ∀ v, s'.Within made d v → v.isMutable = true → s'.Stands v) :
      Founded made (insert c F) (insert c K) { m with store := s' }

namespace Founded
open Store
variable {made : Value → List Value} {F K : Set Nat} {m : Machine}

/-- The class of all families is as it was at first. -/
theorem base (h : Founded made F K m) : 0 ∈ K ∧ m.store.Stands (.type 0) ∧ m.store.type 0 = baseFamily := by
  have hpush {s s' : Store} {bases : List Nat} {attrs : Table Value} {c : Nat} (hdefines : s.Defines bases attrs s' c)
      (hstands : s.Stands (.type 0)) : s'.Stands (.type 0) ∧ s'.type 0 = s.type 0 :=
    ⟨hdefines.enlarges.stands hstands, hdefines.type_of_stands hstands⟩
  induction h with
  | initial => exact ⟨rfl, Nat.zero_lt_one, rfl⟩
  | elsewhere _ V retains _ types ih =>
    obtain ⟨hK, hstands, hbase⟩ := ih
    exact ⟨hK, retains.stands _ hstands, Eq.trans (retains.same (.type 0) hstands (types 0 hK)) hbase⟩
  | define _ _ _ new _ ih =>
    obtain ⟨hK, hstands, hbase⟩ := ih
    obtain ⟨hstands', hsame⟩ := hpush (defines_of_newType new) hstands
    exact ⟨.inr hK, hstands', hsame.trans hbase⟩
  | family _ _ _ new _ _ _ _ ih =>
    obtain ⟨hK, hstands, hbase⟩ := ih
    obtain ⟨hstands', hsame⟩ := hpush (defines_of_newType new) hstands
    exact ⟨.inr hK, hstands', hsame.trans hbase⟩

theorem tacit_base {s : Store} (h : s.type 0 = baseFamily) : s.Tacit K 0 := by
  have hnull {v : Value} (hv : some Value.null = some v) : v = .null := (Option.some.inj hv).symm
  refine ⟨?_, ?_, ?_, ?_, ?_, ?_⟩ <;> rw [h]
  · exact .inr rfl
  · decide
  · intro v hv
    cases hv
  · exact fun v hv => ⟨"", (Option.some.inj hv).symm⟩
  · intro name hname v hv
    simp only [List.mem_cons, List.not_mem_nil, or_false] at hname
    obtain rfl | rfl := hname <;> exact .inl (hnull hv)
  · intro d hd
    cases hnull hd
    exact ⟨mute_of_isInert rfl s, fun x hx => by cases hx⟩

theorem basic_base {s : Store} (h : s.type 0 = baseFamily) : s.Basic 0 := by
  constructor <;> rw [h]
  · rfl
  · decide

/-- Nothing but the notes of what the class of all families takes is there at first. -/
theorem isolated_initial (inLoop : Bool) (empty : made .null = []) : Isolated made {0} {0} ∅ (.initial inLoop) := by
  have hbase : Store.initial.type 0 = baseFamily := rfl
  have hplain : LogContext.Plain .empty := by
    unfold LogContext.Plain
    decide
  have hregular : Store.initial.Regular {0} 0 := by
    have hbasic : 0 ∈ (Store.initial.type 0).ancestry := by decide
    refine .of_tacit (fun j hj => ?_) hbasic (basic_base hbase) (by decide) (by decide) (by decide)
    cases List.mem_singleton.mp hj
    exact tacit_base hbase
  refine ⟨⟨hplain, nofun⟩, housed_initial, ?_, ?_, subset_rfl, ?_, fun v hv => ?_, nofun, nofun, nofun⟩
  · rintro c rfl j hj
    exact List.mem_singleton.mp hj
  · rintro c rfl
    exact Nat.zero_lt_one
  · rintro c rfl
    exact hregular
  · -- It defines no container but its annotations, and offers no data.
    cases hv with
    | table hc htabled =>
      obtain rfl := hc
      obtain ⟨name, hreserved, hget, hcontainer⟩ := htabled
      obtain ⟨e, he, rfl, rfl⟩ := Table.exists_mem_of_get? hget
      have hall : ∀ e ∈ baseFamily.attrs, e.2.isContainer = true → isReserved e.1 = true := by decide +kernel
      cases hreserved.symm.trans (hall e he hcontainer)
    | data hc _ hd hin hmutable =>
      obtain rfl := hc
      have hnull : some Value.null = some _ := hd
      cases hnull
      have hsingle := mem_of_within (List.mem_singleton_self Value.null) (fun a ha b hb => ?_) hin
      · cases List.mem_singleton.mp hsingle
        cases hmutable
      · cases List.mem_singleton.mp ha
        have hinside : Store.inside made (Machine.initial inLoop).store .null = made .null := rfl
        rw [hinside, empty] at hb
        cases hb

/-- As long as there are no instances, none has anything of another. -/
theorem isolated (h : Founded made F K m) : Isolated made F K ∅ m := by
  induction h with
  | initial inLoop empty => exact isolated_initial inLoop empty
  | elsewhere _ V retains off types ih =>
    refine ih.of_retains retains (fun c hc => .inl (retains.same _ (ih.standing c hc) (types c hc))) fun v hv htracked => ?_
    obtain hcommon | ⟨p, hp, -⟩ := htracked
    · exact off v hv hcommon
    · exact hp
  | define before below there new plain ih =>
    have hhoused := ih.housed.newType (fun i hi => ih.standing i (below i hi)) there new
    refine (defines_of_newType new).isolated ih hhoused below there fun hfamily => ?_
    cases plain.symm.trans hfamily
  | family before below there new family dict tacit data ih =>
    have hhoused := ih.housed.newType (fun i hi => ih.standing i (below i hi)) there new
    have hdefines := defines_of_newType new
    obtain ⟨-, hbasic, hbase⟩ := (Founded.family before below there new family dict tacit data).base
    refine Regular.founds ?_ (hdefines.isolated ih hhoused below there fun _ => data) (.inl rfl)
    exact .of_tacit tacit (List.contains_iff_mem.mp family) (basic_base hbase) family hdefines.self dict

/-- What a new family that is built of two classes and some data has. -/
theorem tacit_of_newFamily {s s' : Store} {name : String} {module doc : Value} {t : String} {i j c : Nat} {d : Value}
    (hnew : s.newType name module doc [0] [("name", .str t), ("Parser", .type i), ("Compiler", .type j), ("data", d)]
      .plain = .ok (c, s'))
    (hi : i ∈ K ∧ s.Ordinary i) (hj : j ∈ K ∧ s.Ordinary j) (hd : s.Mute d ∧ ∀ x, s.instance? d = some x → x.type ∈ K)
    (hclosed : ∀ c ∈ K, ∀ j ∈ (s.type c).ancestry, j ∈ K) (hlasts : ∀ c ∈ K, s.Lasts s' c) : s'.Tacit (insert c K) c := by
  obtain ⟨hrole, -, hattrs, -⟩ := type_of_newType hnew rfl
  have hpart {v : Value} {k : Nat} (hk : k ∈ K ∧ s.Ordinary k) (hv : some (Value.type k) = some v) :
      v = .null ∨ ∃ i ∈ insert c K, v = .type i ∧ s'.Ordinary i :=
    .inr ⟨k, .inr hk.1, (Option.some.inj hv).symm, hk.2.of_lasts hclosed hlasts hk.1⟩
  refine ⟨.inl hrole, fun key hkey => ?_, fun v hv => ?_, fun v hv => ?_, fun key hkey v hv => ?_, fun u hu => ?_⟩
  · simp only [List.mem_cons, List.not_mem_nil, or_false] at hkey
    obtain rfl | rfl | rfl | rfl := hkey <;> exact hattrs _ (by decide)
  · rw [hattrs _ (by decide)] at hv
    cases hv
  · rw [hattrs _ (by decide)] at hv
    exact ⟨t, (Option.some.inj hv).symm⟩
  · simp only [List.mem_cons, List.not_mem_nil, or_false] at hkey
    obtain rfl | rfl := hkey <;> rw [hattrs _ (by decide)] at hv
    · exact hpart hi hv
    · exact hpart hj hv
  · rw [hattrs _ (by decide)] at hu
    cases hu
    have hsame : s'.instance? d = s.instance? d := by
      obtain ⟨t, rfl⟩ := (defines_of_newType hnew).kept
      cases d <;> rfl
    have hclass (x : Instance) (hx : s'.instance? d = some x) {key : String} (hkey : key ≠ "_default") :
        s'.typeAttr? x.type key = s.typeAttr? x.type key :=
      typeAttr?_of_lasts hclosed hlasts (hd.2 x (hsame ▸ hx)) hkey
    refine ⟨⟨hd.1.ne_slot, fun x hx => ?_, fun x hx => ?_⟩, fun x hx => .inr (hd.2 x (hsame ▸ hx))⟩
    · rw [hclass x hx (by decide)]
      exact hd.1.unread x (hsame ▸ hx)
    · rw [hclass x hx (by decide)]
      exact hd.1.unwritten x (hsame ▸ hx)

section
variable {t : String} {i j : Nat} {d : Value} (h : Founded made F K m) (hi : i ∈ K ∧ m.store.Ordinary i)
  (hj : j ∈ K ∧ m.store.Ordinary j) (hd : m.store.Mute d)
  (hclass : ∀ x, m.store.instance? d = some x → x.type ∈ K ∧ m.store.typeAttr? x.type "__set_name__" = none)
  (hthere : ∀ v, m.store.Within made d v → v.isMutable = true → m.store.Stands v)
include h hi hj hd hclass hthere

section
variable {s' : Store} {name : String} {module doc : Value} {c : Nat} (hnew : m.store.newType name module doc [0]
  [("name", .str t), ("Parser", .type i), ("Compiler", .type j), ("data", d)] .plain = .ok (c, s'))
include hnew

omit hi hj hd hclass hthere in
theorem ancestry_of_newFamily : (s'.type c).ancestry = [c, 0] ∧ s'.type 0 = baseFamily := by
  obtain ⟨-, hstands, hbase⟩ := h.base
  have hdefines := defines_of_newType hnew
  exact ⟨hdefines.ancestry_of_single (by rw [hbase]; rfl), (hdefines.type_of_stands hstands).trans hbase⟩

/-- A new family that is built of two ordinary classes and some data is one of the families. -/
theorem of_newType : Founded made (insert c F) (insert c K) { m with store := s' } := by
  have hisolated := h.isolated
  have hdefines := defines_of_newType hnew
  obtain ⟨-, hdict, hattrs, -⟩ := type_of_newType hnew rfl
  obtain ⟨hancestry, hbase⟩ := h.ancestry_of_newFamily hnew
  refine .family h (List.forall_mem_singleton.mpr h.base.1) ?_ hnew ?_ hdict (fun k hk => ?_) fun u hu v hv hmutable => ?_
  · have hholds : m.store.Holds d := by
      cases hcontainer : d.isContainer with
      | true => exact (stands_of_isContainer hcontainer).mp (hthere d .refl (Value.isMutable_of_isContainer hcontainer))
      | false => cases d <;> trivial
    intro e he
    simp only [List.mem_cons, List.not_mem_nil, or_false] at he
    obtain rfl | rfl | rfl | rfl := he
    · trivial
    · trivial
    · trivial
    · exact hholds
  · rw [descends, hancestry]
    exact List.contains_iff_mem.mpr (by simp)
  · rw [hancestry] at hk
    obtain rfl | hk := List.mem_cons.mp hk
    · exact tacit_of_newFamily hnew hi hj ⟨hd, fun x hx => (hclass x hx).1⟩ hisolated.closed fun k hk =>
        .inl (hdefines.type_of_stands (hisolated.standing k hk))
    · cases List.mem_singleton.mp hk
      exact tacit_base hbase
  · have hoffers : s'.typeAttr? c "data" = some d := by
      rw [typeAttr?_eq_some, member?_eq, hancestry, List.findSome?_cons, offer?, hattrs _ (by decide)]
      rfl
    cases hoffers.symm.trans hu
    have hsame (w : Value) (hw : m.store.Within made d w) (hmutable : w.isMutable = true) : m.store.SameAs s' w :=
      hdefines.enlarges.sameAs (hthere w hw hmutable)
    exact hdefines.enlarges.stands (hthere v ((within_congr_of_isMutable hsame).mp hv) hmutable)

open Work in
omit hi hj hd hthere in
/-- Nobody is asked when a new family is introduced: none of what it was given wants to know its name. -/
theorem gives_introduce_of_newType : (introduce c).Gives { m with store := s' } () { m with store := s' } := by
  have hisolated := h.isolated
  have hdefines := defines_of_newType hnew
  obtain ⟨-, -, -, hall⟩ := type_of_newType hnew rfl
  obtain ⟨hancestry, hbase⟩ := h.ancestry_of_newFamily hnew
  let m₁ : Machine := { m with store := s' }
  have hplain {v : Value} (hv : v.isInert = true) : (special? v "__set_name__").Gives m₁ none m₁ := by
    refine gives_special_of_instance? ?_ _
    cases v <;> first | rfl | cases hv
  refine gives_introduce (hall (P := fun v => (special? v "__set_name__").Gives m₁ none m₁) (hplain rfl) fun e he => ?_)
    fun k hk => ?_
  · simp only [List.mem_cons, List.not_mem_nil, or_false] at he
    obtain rfl | rfl | rfl | rfl := he
    · exact hplain rfl
    · exact hplain rfl
    · exact hplain rfl
    · refine gives_special_of_unsaid fun x hx => ?_
      have hx : m.store.instance? d = some x := by
        obtain ⟨t, rfl⟩ := hdefines.kept
        cases d <;> exact hx
      obtain ⟨hin, hnone⟩ := hclass x hx
      have hlasts (k : Nat) (hk : k ∈ K) : m.store.Lasts s' k := .inl (hdefines.type_of_stands (hisolated.standing k hk))
      exact (typeAttr?_of_lasts hisolated.closed hlasts hin (by decide)).trans hnone
  · change k ∈ (s'.type c).ancestry.tail at hk
    rw [hancestry] at hk
    cases List.mem_singleton.mp hk
    show (s'.type 0).attrs.get? _ = none
    rw [hbase]
    decide

end

open Work in
/-- A family that is built of two ordinary classes and some data is one of the families, or there is no new one. Data that
are an instance of a class neither are told their name nor say how they are read and written. -/
theorem of_newFamily (ht : t ≠ "") (σ : Service) :
    (∃ c m', newFamily (.str t) (.type i) (.type j) d σ m = (.done c, m') ∧ Founded made (insert c F) (insert c K) m') ∨
    ∃ out m', newFamily (.str t) (.type i) (.type j) d σ m = (out, m') ∧ (∀ c, out ≠ .done c) ∧ Founded made F K m' := by
  let attrs : Table Value := [("name", .str t), ("Parser", .type i), ("Compiler", .type j), ("data", d)]
  have hrun : newFamily (.str t) (.type i) (.type j) d σ m = ((perhaps fun s => s.newType (familyName t)
      (.str "unified.processor") (.str ("Processor family " ++ Text.quoted t ++ ".")) [0] attrs .plain) >>= fun c =>
        introduce c >>= fun _ => store >>= fun s => log "unified.processor" .debug "processor.family"
          [("processor", .str t), ("parser", .str (s.type i).name), ("compiler", .str (s.type j).name)] >>= fun _ =>
            pure c) σ m := by
    unfold newFamily
    dsimp only
    rw [if_neg ht]
    simp only [requireClass, Work.pure_bind, attrs]
  rw [hrun, bind_eq, perhaps]
  cases hnew : m.store.newType (familyName t) (.str "unified.processor") (.str ("Processor family " ++ Text.quoted t ++ "."))
      [0] attrs .plain with
  | error failure =>
    right
    dsimp only
    have hretains : m.Retains (fun _ => False) ((fail failure : Work Nat) σ m).2 := retains_fail failure m σ
    have hfails (c : Nat) : ((fail failure : Work Nat) σ m).1 ≠ .done c := fun hc => not_fail_done failure (Prod.ext hc rfl)
    generalize (fail failure : Work Nat) σ m = r at hretains hfails
    obtain ⟨out | e | _, m'⟩ := r
    · exact absurd rfl (hfails out)
    · refine ⟨_, m', rfl, fun c hc => ?_, h.elsewhere _ hretains (fun _ => False.elim) fun _ _ => False.elim⟩
      cases hc
    · refine ⟨_, m', rfl, fun c hc => ?_, h.elsewhere _ hretains (fun _ => False.elim) fun _ _ => False.elim⟩
      cases hc
  | ok made' =>
    left
    obtain ⟨c, s'⟩ := made'
    have hfounded := of_newType h hi hj hd hclass hthere hnew
    have hintroduce := gives_introduce_of_newType h hclass hnew
    have hlog : (log "unified.processor" .debug "processor.family"
        [("processor", .str t), ("parser", .str (s'.type i).name), ("compiler", .str (s'.type j).name)]).Notes σ
          { m with store := s' } := by
      refine notes_log hfounded.isolated.tame (by decide) (fun e he => ?_) _ _
      simp only [List.mem_cons, List.not_mem_nil, or_false] at he
      obtain rfl | rfl | rfl := he
      · exact ⟨rfl, show "processor" ∉ unusualNames by decide⟩
      · exact ⟨rfl, show "parser" ∉ unusualNames by decide⟩
      · exact ⟨rfl, show "compiler" ∉ unusualNames by decide⟩
    obtain ⟨u, m', hlog, hnoted⟩ := hlog
    dsimp only
    rw [hintroduce.bind_eq, (gives_store _).bind_eq, bind_eq, hlog]
    exact ⟨c, m', rfl, hfounded.elsewhere _ (.of_noted hnoted) (fun _ => False.elim) fun _ _ => False.elim⟩

end

end Founded
end Treeworks
