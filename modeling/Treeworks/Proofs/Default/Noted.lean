import Treeworks.Proofs.Heed.Frame

/-! The default instances that classes have noted. What becomes of them is a frame: none is ever replaced, each is made
for its class alone, and only for a class that is asked for it. -/
namespace Treeworks

namespace Table
variable {α : Type}

theorem exists_mem_of_get? {t : Table α} {key : String} {v : α} (h : t.get? key = some v) :
    ∃ e ∈ t, e.1 = key ∧ e.2 = v := by
  induction t with
  | nil => cases h
  | cons e t ih =>
    rw [get?] at h
    split at h
    · exact ⟨e, .head _, ‹_›, Option.some.inj h⟩
    · obtain ⟨e', he, hkey⟩ := ih h
      exact ⟨e', .tail _ he, hkey⟩

theorem forall_ne_of_get?_eq_none {t : Table α} {key : String} (h : t.get? key = none) : ∀ e ∈ t, e.1 ≠ key := by
  induction t with
  | nil => exact nofun
  | cons e t ih =>
    rw [get?] at h
    split at h
    · cases h
    · exact List.forall_mem_cons.mpr ⟨‹_›, ih h⟩

theorem get?_fill (t u : Table α) (key : String) : (t.fill u).get? key = (t.get? key).or (u.get? key) := by
  induction u generalizing t with
  | nil => exact (Option.or_none).symm
  | cons x u ih =>
    change get? (fill (if t.has x.1 then t else t.set x.1 x.2) u) key = _
    rw [ih, show get? (x :: u) key = if x.1 = key then some x.2 else get? u key from rfl]
    split
    · rename_i hhas
      split
      · subst key
        obtain ⟨v, hv⟩ := Option.isSome_iff_exists.mp hhas
        rw [hv, Option.some_or, Option.some_or]
      · rfl
    · rename_i hhas
      rw [get?_set]
      split
      · subst key
        rw [show t.get? x.1 = none by simpa [has] using hhas]
        rfl
      · rfl

theorem get?_filter_eq_none {t : Table α} {key : String} (h : t.get? key = none) (f : String × α → Bool) :
    get? (t.filter f) key = none := by
  cases hget : get? (t.filter f) key with
  | none => rfl
  | some v =>
    obtain ⟨e, he, hkey, -⟩ := exists_mem_of_get? hget
    exact absurd hkey (forall_ne_of_get?_eq_none h e (List.mem_filter.mp he).1)

theorem mem_set_of_get?_eq_none {t : Table α} {key : String} {v : α} {e : String × α} (h : t.get? key = none)
    (he : e ∈ t.set key v) : e ∈ t ∨ e = (key, v) := by
  induction t with
  | nil => exact .inr (List.mem_singleton.mp he)
  | cons e' t ih =>
    rw [get?] at h
    split at h
    · cases h
    · rename_i hne
      rw [set, if_neg hne] at he
      rcases List.mem_cons.mp he with rfl | he
      · exact .inl (.head _)
      · exact (ih h he).imp_left (.tail _)

/-- What fills up a table stands under a key that had no entry. -/
theorem mem_fill {t u : Table α} {e : String × α} (h : e ∈ t.fill u) :
    e ∈ t ∨ t.get? e.1 = none ∧ u.get? e.1 = some e.2 := by
  induction u generalizing t with
  | nil => exact .inl h
  | cons x u ih =>
    change e ∈ fill (if t.has x.1 then t else t.set x.1 x.2) u at h
    rw [show get? (x :: u) e.1 = if x.1 = e.1 then some x.2 else get? u e.1 from rfl]
    split at h
    · rename_i hhas
      refine (ih h).imp_right fun ⟨hnone, hget⟩ => ⟨hnone, ?_⟩
      rw [if_neg, hget]
      intro hx
      rw [has, hx, hnone] at hhas
      cases hhas
    · rename_i hhas
      have hnone : t.get? x.1 = none := by simpa [has] using hhas
      rcases ih h with he | ⟨hget, hrest⟩
      · rcases mem_set_of_get?_eq_none hnone he with he | rfl
        · exact .inl he
        · exact .inr ⟨hnone, if_pos rfl⟩
      · rw [get?_set] at hget
        split at hget
        · cases hget
        · rename_i hne
          exact .inr ⟨hget, by rw [if_neg hne, hrest]⟩

end Table

namespace Store
variable {s s' s'' : Store} {asked : Nat → Bool}

/-- The default instance that a class has noted; null if it has none. -/
def noted (s : Store) (c : Nat) : Value := ((s.type c).attrs.get? "_default").getD .null

/-- Whether all defaults that are noted are instances, no two classes having the same. Only the class that all families
come from says how instances are made. -/
structure Tidy (s : Store) : Prop where
  root : (s.type 0).role = .family
  inborn : ∀ c, (s.type c).attrs.get? "__new__" = none
  instances : ∀ {c}, s.noted c ≠ .null → ∃ p < s.processors.size, s.noted c = .processor p
  apart : ∀ {c d}, s.noted c ≠ .null → s.noted c = s.noted d → c = d

/-- What may become of defaults: those that are noted stay, and only classes that are asked for one note an instance,
which was not there before. -/
structure Minds (asked : Nat → Bool) (s s' : Store) : Prop where
  tidy : s'.Tidy
  roles : ∀ {i}, (s.type i).role = .family → (s'.type i).role = .family
  types : s.types.size ≤ s'.types.size
  size : s.processors.size ≤ s'.processors.size
  kept : ∀ {c}, s.noted c ≠ .null → s'.noted c = s.noted c
  fresh : ∀ {c}, s.noted c = .null → s'.noted c ≠ .null →
    asked c = true ∧ ∃ p, s.processors.size ≤ p ∧ s'.noted c = .processor p

/-- Whether a value is an instance that is new and that no class has noted. -/
structure Spare (s s' : Store) (p : Nat) : Prop where
  new : s.processors.size ≤ p
  there : p < s'.processors.size
  free : ∀ c, s'.noted c ≠ .processor p

theorem Minds.trans (h : s.Minds asked s') (h' : s'.Minds asked s'') : s.Minds asked s'' where
  tidy := h'.tidy
  roles hi := h'.roles (h.roles hi)
  types := Nat.le_trans h.types h'.types
  size := Nat.le_trans h.size h'.size
  kept {c} hc := (h'.kept ((h.kept hc).symm ▸ hc)).trans (h.kept hc)
  fresh {c} hc hc'' := by
    by_cases hc' : s'.noted c = .null
    · obtain ⟨hasked, p, hp, hnoted⟩ := h'.fresh hc' hc''
      exact ⟨hasked, p, Nat.le_trans h.size hp, hnoted⟩
    · obtain ⟨hasked, p, hp, hnoted⟩ := h.fresh hc hc'
      exact ⟨hasked, p, hp, (h'.kept hc').trans hnoted⟩

/-- What is spare now is never noted. -/
theorem Spare.never {p : Nat} (h : s.Spare s' p) (h' : s'.Minds asked s'') (c : Nat) : s''.noted c ≠ .processor p := by
  intro hc
  by_cases hnoted : s'.noted c = .null
  · obtain ⟨-, q, hq, hcq⟩ := h'.fresh hnoted (by rw [hc]; exact nofun)
    cases hc.symm.trans hcq
    exact Nat.not_lt_of_le hq h.there
  · exact h.free c ((h'.kept hnoted).symm.trans hc)

/-- Where no class notes anything, defaults are minded. -/
theorem Tidy.minds (hs : s.Tidy) (hroles : ∀ {i}, (s.type i).role = .family → (s'.type i).role = .family)
    (hinborn : ∀ c, (s'.type c).attrs.get? "__new__" = none) (hnoted : ∀ c, s'.noted c = s.noted c)
    (htypes : s.types.size ≤ s'.types.size) (hsize : s.processors.size ≤ s'.processors.size) : s.Minds asked s' where
  tidy :=
    { root := hroles hs.root
      inborn := hinborn
      instances := fun {c} hc => by
        rw [hnoted] at hc ⊢
        obtain ⟨p, hp, h⟩ := hs.instances hc
        exact ⟨p, Nat.lt_of_lt_of_le hp hsize, h⟩
      apart := fun {c d} hc hd => by
        rw [hnoted] at hc
        rw [hnoted, hnoted] at hd
        exact hs.apart hc hd }
  roles := hroles
  types := htypes
  size := hsize
  kept _ := hnoted _
  fresh {c} hc hc' := absurd ((hnoted c).trans hc) hc'

theorem Tidy.minds_of_types (hs : s.Tidy) (htypes : s'.types = s.types)
    (hprocessors : s.processors.size ≤ s'.processors.size) : s.Minds asked s' := by
  have htype (c : Nat) : s'.type c = s.type c := by rw [type, htypes, type]
  refine hs.minds (fun hi => ?_) (fun c => ?_) (fun c => ?_) (Nat.le_of_eq (by rw [htypes])) hprocessors
  · rw [htype, hi]
  · rw [htype, hs.inborn]
  · rw [noted, htype, noted]

theorem Tidy.minds_of_settled (hs : s.Tidy) (h : s.Settled s') : s.Minds asked s' :=
  hs.minds_of_types h.types h.processors

theorem lt_of_descends {c i : Nat} (h : s.descends c i = true) : c < s.types.size := by
  refine Nat.lt_of_not_le fun hc => ?_
  rw [descends, type, Array.getD_eq_getD_getElem?, Array.getElem?_eq_none hc] at h
  cases h

/-! ### Changes of classes -/

theorem type_updateType (s : Store) (i : Nat) (f : TypeDef → TypeDef) (c : Nat) :
    (s.updateType i f).type c = if i = c ∧ c < s.types.size then f (s.type c) else s.type c := by
  unfold type updateType
  simp only [Array.getD_eq_getD_getElem?, Array.getElem?_modify]
  by_cases hc : c < s.types.size
  · by_cases hi : i = c <;> simp [hc, hi]
  · simp [hc]

/-- To change a class in other ways than to note a default, or to say how instances are made, minds defaults. -/
theorem Tidy.minds_updateType (hs : s.Tidy) (i : Nat) {f : TypeDef → TypeDef} (hrole : ∀ t, (f t).role = t.role)
    (hattrs : ∀ t, ∀ name ∈ ["_default", "__new__"], (f t).attrs.get? name = t.attrs.get? name) :
    s.Minds asked (s.updateType i f) := by
  refine hs.minds (fun hi => ?_) (fun c => ?_) (fun c => ?_) (by simp [updateType]) (Nat.le_refl _)
  · rw [type_updateType]
    split
    · rw [hrole, hi]
    · exact hi
  · rw [type_updateType]
    split
    · rw [hattrs _ _ (by simp), hs.inborn]
    · exact hs.inborn c
  · rw [noted, type_updateType]
    split
    · rw [hattrs _ _ (by simp), noted]
    · rfl

theorem Tidy.minds_setTypeAttr (hs : s.Tidy) {i : Nat} {name : String} {value : Value}
    (hname : name ∉ ["_default", "__new__"]) (h : s.setTypeAttr i name value = .ok s') : s.Minds asked s' := by
  have hset (t : TypeDef) : ∀ other ∈ ["_default", "__new__"],
      (t.attrs.set name value).get? other = t.attrs.get? other := by
    intro other hother
    rw [Table.get?_set, if_neg]
    rintro rfl
    exact hname hother
  unfold setTypeAttr at h
  split at h
  · split at h
    · obtain ⟨-, -, hs'⟩ := Except.bind_eq_ok h
      cases hs'
      exact hs.minds_updateType i (fun _ => rfl) fun _ _ _ => rfl
    · cases h
  split at h
  · split at h
    · cases h
      exact hs.minds_updateType i (fun _ => rfl) fun _ _ _ => rfl
    · cases h
  split at h
  · cases h
    exact hs.minds_updateType i (fun _ => rfl) fun _ _ _ => rfl
  split at h
  · cases h
    exact hs.minds_updateType i (fun _ => rfl) fun _ _ _ => rfl
  split at h
  · cases h
  split at h
  · cases h
  · cases h
    exact hs.minds_updateType i (fun _ => rfl) hset

theorem type_push (s : Store) (t : TypeDef) (c : Nat) :
    Store.type { s with types := s.types.push t } c = if c = s.types.size then t else s.type c := by
  simp only [type, Array.getD_eq_getD_getElem?, Array.getElem?_push]
  split <;> rfl

/-- A new class that has noted no default and does not say how instances are made. -/
theorem Tidy.minds_push (hs : s.Tidy) {t : TypeDef}
    (ht : ∀ name ∈ ["_default", "__new__"], t.attrs.get? name = none) :
    s.Minds asked { s with types := s.types.push t } := by
  have hout : s.type s.types.size = default := by simp [type]
  refine hs.minds (fun {i} hi => ?_) (fun c => ?_) (fun c => ?_) (by simp) (Nat.le_refl _)
  · rw [type_push, if_neg, hi]
    rintro rfl
    rw [hout] at hi
    cases hi
  · rw [type_push]
    split
    · exact ht _ (by simp)
    · exact hs.inborn c
  · rw [noted, type_push]
    split
    · subst c
      rw [ht _ (by simp), noted, hout]
      rfl
    · rfl

/-! ### Noting a default -/

/-- The store after a class has noted a default. -/
def note (s : Store) (c : Nat) (v : Value) : Store := s.updateType c fun t =>
  { t with attrs := t.attrs.set "_default" v, fixed := t.fixed.filter (· ≠ "_default") }

theorem noted_note {c : Nat} (hc : c < s.types.size) (v : Value) (d : Nat) :
    (s.note c v).noted d = if c = d then v else s.noted d := by
  rw [noted, note, type_updateType]
  by_cases hcd : c = d
  · subst hcd
    rw [if_pos ⟨rfl, hc⟩, if_pos rfl, Table.get?_set, if_pos rfl]
    rfl
  · rw [if_neg fun h => hcd h.1, if_neg hcd, noted]

/-- A class that had noted nothing, and is asked for its default, can note an instance that is spare. -/
theorem Minds.note (h : s.Minds asked s') {c p : Nat} (hc : c < s.types.size) (hnoted : s.noted c = .null)
    (hasked : asked c = true) (hp : s.Spare s' p) : s.Minds asked (s'.note c (.processor p)) := by
  have hget := noted_note (s := s') (Nat.lt_of_lt_of_le hc h.types) (.processor p)
  have hrole (i : Nat) : ((s'.note c (.processor p)).type i).role = (s'.type i).role := by
    rw [Store.note, type_updateType]
    split <;> rfl
  refine ⟨⟨(hrole 0).trans h.tidy.root, fun d => ?_, fun {d} hd => ?_, fun {d e} hd he => ?_⟩,
    fun {i} hi => (hrole i).trans (h.roles hi), ?_, h.size, fun {d} hd => ?_, fun {d} hd hd' => ?_⟩
  · rw [Store.note, type_updateType]
    split
    · rw [Table.get?_set, if_neg (by decide), h.tidy.inborn]
    · exact h.tidy.inborn d
  · rw [hget] at hd ⊢
    split
    · exact ⟨p, hp.there, rfl⟩
    · rw [if_neg ‹_›] at hd
      exact h.tidy.instances hd
  · rw [hget] at hd
    rw [hget, hget] at he
    split at he <;> split at he
    · exact ‹c = d›.symm.trans ‹_›
    · exact absurd he.symm (hp.free e)
    · exact absurd he (hp.free d)
    · rw [if_neg ‹_›] at hd
      exact h.tidy.apart hd he
  · exact Nat.le_trans h.types (by simp [Store.note, updateType])
  · rw [hget, if_neg, h.kept hd]
    rintro rfl
    exact hd hnoted
  · rw [hget] at hd' ⊢
    split
    · subst ‹c = d›
      exact ⟨hasked, p, hp.new, rfl⟩
    · rw [if_neg ‹_›] at hd'
      exact h.fresh hd hd'

/-! ### Classes that are made -/

/-- A class itself has a value under a name; the methods that it is born with are told by null. -/
theorem get?_ownNames {t : TypeDef} {name : String} {v : Value} (h : (ownNames t).get? name = some v) :
    t.attrs.get? name = some v ∨ v = .null := by
  rw [ownNames, Table.get?_fill] at h
  cases hown : t.attrs.get? name with
  | some w =>
    rw [hown] at h
    exact .inl h
  | none =>
    rw [hown, Option.none_or] at h
    obtain ⟨e, he, -, hv⟩ := Table.exists_mem_of_get? h
    obtain ⟨_, -, rfl⟩ := List.mem_map.mp he
    exact .inr hv.symm

/-- What is visible along an ancestry, a class has there itself. -/
theorem mem_visibleAttrs {ancestry : List Nat} {e : String × Value} (h : e ∈ s.visibleAttrs ancestry) :
    ∃ i ∈ ancestry, (ownNames (s.type i)).get? e.1 = some e.2 := by
  suffices h' : ∀ acc : Table Value, e ∈ ancestry.foldl (fun t i => t.fill (ownNames (s.type i))) acc →
      e ∈ acc ∨ ∃ i ∈ ancestry, (ownNames (s.type i)).get? e.1 = some e.2 by
    rcases h' [] h with h | h
    · cases h
    · exact h
  clear h
  induction ancestry with
  | nil => exact fun acc h => .inl h
  | cons i rest ih =>
    intro acc h
    rcases ih _ h with h | ⟨j, hj, h⟩
    · rcases Table.mem_fill h with h | ⟨-, h⟩
      · exact .inl h
      · exact .inr ⟨i, .head _, h⟩
    · exact .inr ⟨j, .tail _ hj, h⟩

theorem settled_shallowCopy {v copy : Value} (h : s.shallowCopy? v = some (copy, s')) : s.Settled s' := by
  unfold shallowCopy? at h
  split at h
  all_goals cases h
  all_goals exact ⟨rfl, Nat.le_refl _, .of_eq rfl⟩

/-- What copies of containers there are, and that to make them leaves the classes alone. -/
theorem ownContainers_spec (s : Store) (t : Table Value) : s.Settled (s.ownContainers t).2 ∧
    ∀ name v, (s.ownContainers t).1.get? name = some v →
      isReserved name = false ∧ ∃ w s', (name, w) ∈ t ∧ (shallowCopy? s' w).isSome := by
  induction t generalizing s with
  | nil => exact ⟨.refl s, nofun⟩
  | cons e t ih =>
    obtain ⟨key, w⟩ := e
    rw [ownContainers]
    split
    · obtain ⟨hsettled, h⟩ := ih s
      refine ⟨hsettled, fun name v hv => ?_⟩
      obtain ⟨hname, w', s', hw', hcopy⟩ := h name v hv
      exact ⟨hname, w', s', .tail _ hw', hcopy⟩
    · split
      · obtain ⟨hsettled, h⟩ := ih s
        refine ⟨hsettled, fun name v hv => ?_⟩
        obtain ⟨hname, w', s', hw', hcopy⟩ := h name v hv
        exact ⟨hname, w', s', .tail _ hw', hcopy⟩
      · rename_i hkey _ copy s₁ hcopied
        obtain ⟨hsettled, h⟩ := ih s₁
        refine ⟨(settled_shallowCopy hcopied).trans hsettled, fun name v hv => ?_⟩
        rw [Table.get?] at hv
        split at hv
        · subst name
          exact ⟨by simpa using hkey, w, s, .head _, by rw [hcopied]; rfl⟩
        · obtain ⟨hname, w', s', hw', hcopy⟩ := h name v hv
          exact ⟨hname, w', s', .tail _ hw', hcopy⟩

/-- A derived class has copies of containers alone, so it has noted no default. -/
theorem Tidy.minds_derive (hs : s.Tidy) (base : Nat) (documented : Bool) :
    s.Minds asked (s.derive base documented).2 := by
  obtain ⟨hsettled, hcontainers⟩ := ownContainers_spec s (s.visibleAttrs (s.type base).ancestry)
  have hminds : s.Minds asked _ := hs.minds_of_settled hsettled
  refine hminds.trans (hminds.tidy.minds_push fun name hname => ?_)
  cases hget : (s.ownContainers (s.visibleAttrs (s.type base).ancestry)).1.get? name with
  | none => rfl
  | some v =>
    exfalso
    obtain ⟨hreserved, w, s', hw, hcopy⟩ := hcontainers name v hget
    simp only [List.mem_cons, List.not_mem_nil, or_false] at hname
    rcases hname with rfl | rfl
    · obtain ⟨i, -, hi⟩ := mem_visibleAttrs hw
      have hnull : w ≠ .null := by
        rintro rfl
        cases hcopy
      have hnoted : s.noted i = w := by
        rw [noted, (get?_ownNames hi).resolve_right hnull]
        rfl
      obtain ⟨p, -, hp⟩ := hs.instances (hnoted ▸ hnull)
      rw [← hnoted, hp] at hcopy
      cases hcopy
    · exact absurd hreserved (by decide +kernel)

theorem slotNames_nil (s : Store) (type : String) (base : Option Nat) (defined : List String) :
    s.slotNames type base defined [] = .ok [] := by
  simp [slotNames, extraSlots]
  rfl

/-- A class that is defined without a default, and without saying how instances are made. -/
theorem Tidy.minds_newType (hs : s.Tidy) {name : String} {module doc : Value} {bases : List Nat} {attrs : Table Value}
    {role : Role} {i : Nat} (hattrs : ∀ name ∈ ["_default", "__new__", "__slots__"], attrs.get? name = none)
    (h : s.newType name module doc bases attrs role = .ok (i, s')) : s.Minds asked s' := by
  have hslots : attrs.get? "__slots__" = none := hattrs _ (by simp)
  unfold newType at h
  split at h
  · rename_i layout base _
    rw [hslots] at h
    obtain ⟨asked, hasked, h⟩ := Except.bind_eq_ok h
    cases hasked
    obtain ⟨slots, hslots, h⟩ := Except.bind_eq_ok h
    cases (slotNames_nil s _ _ _).symm.trans hslots
    obtain ⟨-, -, h⟩ := Except.bind_eq_ok h
    obtain ⟨qualname, -, h⟩ := Except.bind_eq_ok h
    by_cases hcell : attrs.has "__classcell__" = true
    · rw [if_pos hcell] at h
      cases h
    · rw [if_neg hcell] at h
      split at h
      · cases h
        refine hs.minds_push fun name hname => ?_
        have hown := Table.get?_filter_eq_none (hattrs name (by grind)) fun e => e.1 ≠ "__qualname__"
        change Table.get? (if _ then _ else _) name = none
        split
        · exact (Table.get?_set _ _ _ _).trans ((if_neg (by grind)).trans hown)
        · exact hown
      · cases h
  · cases h

end Store

/-- Whether all answers to requests mind defaults, whether calls give no classes, whether a family gives something new
when it is called without arguments, and whether it has noted what it gives for its default. -/
structure Service.Minds (asked : Nat → Bool) (σ : Service) : Prop where
  minds : ∀ r (m : Machine), m.store.Tidy → m.store.Minds asked (σ r m).2.store
  answers : ∀ {callee args keywords m v}, (σ (.call callee args keywords) m).1 = .done v → ∀ i, v ≠ .type i
  makes : ∀ {c v} {m m' : Machine}, m.store.Tidy → m.store.descends c 0 = true → σ (.call (.type c) [] []) m = (.done v, m') →
    ∃ p, v = .processor p ∧ m.store.Spare m'.store p
  notes : ∀ {j c v} {m m' : Machine}, m.store.Tidy → m.store.descends c 0 = true → (m.store.type j).role = .family →
    σ (.invoke (.inborn j "default" (.type c)) []) m = (.done v, m') → m'.store.noted c = v ∧ ∃ p, v = .processor p

/-- The frame of defaults, where some classes may be asked for theirs. Nobody stores what stands for one, or how
instances are made. -/
def Frame.defaults (asked : Nat → Bool) : Frame where
  sound _ := True
  holds m m' := m.store.Tidy → m.store.Minds asked m'.store
  lasting := True
  asks _ := True
  serves := Service.Minds asked
  answers v := ∀ i, v ≠ .type i
  stores v name := ∀ i, v = .type i → name ∉ ["_default", "__new__"]
  defines attrs := ∀ name ∈ ["_default", "__new__", "__slots__"], attrs.get? name = none
  defines_public {attrs} h name hname := by
    cases hget : attrs.get? name with
    | none => rfl
    | some v =>
      obtain ⟨e, he, rfl, -⟩ := Table.exists_mem_of_get? hget
      refine absurd ?_ (h e he)
      simp only [List.mem_cons, List.not_mem_nil, or_false] at hname
      rcases hname with h | h | h <;> rw [h] <;> decide
  trans h h' hm := (h hm).trans (h' (h hm).tidy)
  keeps _ _ := trivial
  calls _ := trivial
  served hσ _ _ m _ hm := hσ.minds _ m hm
  answered hσ := hσ.answers
  stores_of_answers hv _ i hi := absurd hi (hv i)
  stores_object hv _ i hi := absurd hi (hv i)
  stores_public _ name hname i _ hmem := by
    simp only [List.mem_cons, List.not_mem_nil, or_false] at hmem
    rcases hmem with rfl | rfl <;> exact hname (by decide)
  still _ h _ hm := hm.minds_of_settled h
  used _ hm := hm.minds_of_settled (.refl _)
  stored {_ _ i _ _} h hs hm := hm.minds_setTypeAttr (h i rfl) hs
  annotated m i v hm := hm.minds_updateType i (fun _ => rfl) fun t name hname => by
    simp only [List.mem_cons, List.not_mem_nil, or_false] at hname
    rw [Table.get?_set, if_neg]
    rcases hname with rfl | rfl <;> decide
  derived m base documented hm := hm.minds_derive base documented
  defined h hs hm := hm.minds_newType h hs

instance (asked : Nat → Bool) : (Frame.defaults asked).Free where
  sound _ := trivial
  lasting := trivial
  asks _ := trivial
  holds _ htypes hprocessors hm := hm.minds_of_types htypes hprocessors
  served hσ r m hm := hσ.minds r m hm

end Treeworks
