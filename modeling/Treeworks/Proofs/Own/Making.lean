import Treeworks.Proofs.Own.Registry

/-! How families make instances. A new instance gets a ware with two empty lists, classes that are derived for it, and a copy
of the data of its family, one after the other; all that was there before stays as it was, so that nothing of its own is
anybody else's. -/
namespace Treeworks

namespace Store

/-- Whether a class leads a name to a copy of the container to which another leads it, or where there is none to what the
other leads it to. -/
def Renders (s : Store) (base : Nat) (s' : Store) (e : Nat) (name : String) : Prop :=
  (∃ v w, s.member? base name = some (.value v) ∧ v.isContainer = true ∧ (s'.type e).attrs.get? name = some w ∧
    s.SameEntries v s' w) ∨
  (∀ v, s.member? base name = some (.value v) → v.isContainer = false) ∧ (s'.type e).attrs.get? name = none ∧
    s'.member? e name = s.member? base name

theorem SameEntries.of_sameAs {s s' s'' : Store} {v w : Value} (h : s.SameEntries v s' w) (hw : s'.SameAs s'' w) :
    s.SameEntries v s'' w := by
  cases v <;> cases w <;> try exact h
  · exact Eq.trans hw h
  · exact Eq.trans hw h
  · have hset : s''.set _ = s'.set _ := hw
    show (s''.set _).toList.Perm _
    rw [hset]
    exact h

theorem SameEntries.since {s₀ s s' : Store} {v w : Value} (h : s.SameEntries v s' w) (hv : s₀.SameAs s v) :
    s₀.SameEntries v s' w := by
  cases v <;> cases w <;> try exact h
  · exact Eq.trans h hv
  · exact Eq.trans h hv
  · have hset : s.set _ = s₀.set _ := hv
    show (s'.set _).toList.Perm (s₀.set _).toList
    rw [← hset]
    exact h

theorem stands_of_isContainer {s : Store} {v : Value} (h : v.isContainer = true) : s.Stands v ↔ s.Holds v := by
  cases v <;> first | rfl | cases h

namespace Renders
variable {s₀ s s' s'' : Store} {base e : Nat} {name : String}

theorem of_derived (h : s.Derived base s' e) (hname : isReserved name = false) : s.Renders base s' e name := by
  by_cases hcontainer : ∃ v, s.member? base name = some (.value v) ∧ v.isContainer = true
  · obtain ⟨v, hv, hcontainer⟩ := hcontainer
    obtain ⟨w, hw, -, hcopied⟩ := h.containers hname hv hcontainer
    exact .inl ⟨v, w, hv, hcontainer, hw, hcopied.same⟩
  · have hnone (v : Value) (hv : s.member? base name = some (.value v)) : v.isContainer = false :=
      Bool.eq_false_iff.mpr fun h => hcontainer ⟨v, hv, h⟩
    exact .inr ⟨hnone, h.others hname hnone⟩

/-- A name is rendered as by a class that was the same before. -/
theorem since (h : s.Renders base s' e name) (hmember : s.member? base name = s₀.member? base name)
    (hsame : ∀ v, s.member? base name = some (.value v) → v.isContainer = true → s₀.SameAs s v) :
    s₀.Renders base s' e name := by
  obtain ⟨v, w, hv, hcontainer, hw, hentries⟩ | ⟨hnone, hown, hleads⟩ := h
  · exact .inl ⟨v, w, hmember ▸ hv, hcontainer, hw, hentries.since (hsame v hv hcontainer)⟩
  · exact .inr ⟨hmember ▸ hnone, hown, hleads.trans hmember⟩

/-- A name goes on being rendered while the class is the same, with those above it and its container. -/
theorem of_same (h : s.Renders base s' e name) (htypes : ∀ j ∈ (s'.type e).ancestry, s''.type j = s'.type j)
    (htype : s''.type e = s'.type e)
    (hsame : ∀ w, (s'.type e).attrs.get? name = some w → w.isContainer = true → s'.SameAs s'' w) :
    s.Renders base s'' e name := by
  obtain ⟨v, w, hv, hcontainer, hw, hentries⟩ | ⟨hnone, hown, hleads⟩ := h
  · exact .inl ⟨v, w, hv, hcontainer, htype ▸ hw, hentries.of_sameAs (hsame w hw hentries.isContainer)⟩
  · refine .inr ⟨hnone, htype ▸ hown, ?_⟩
    rw [← hleads, member?_eq, htype, member?_eq, findSome?_offer?_congr htypes]

end Renders

/-- What a class is that was derived from another for an instance: it and all that it defines are new, and it renders every
name as the other does. -/
structure Offshoot (s : Store) (base : Nat) (s' : Store) (e : Nat) : Prop where
  new : ¬ s.Stands (.type e)
  stands : s'.Stands (.type e)
  ancestry : (s'.type e).ancestry = e :: (s.type base).ancestry
  renders : ∀ name, isReserved name = false → s.Renders base s' e name
  tables : ∀ v, s'.Tabled e v → s'.Stands v ∧ ¬ s.Stands v

namespace Offshoot
variable {s s' s'' : Store} {base e : Nat}

theorem of_derived (h : s.Derived base s' e) (hstands : s'.Stands (.type e)) : s.Offshoot base s' e where
  new := Nat.not_lt_of_le h.new
  stands := hstands
  ancestry := h.ancestry
  renders _ hname := .of_derived h hname
  tables v hv := by
    obtain ⟨name, hname, hv, hcontainer⟩ := hv
    rw [stands_of_isContainer hcontainer, stands_of_isContainer hcontainer]
    by_cases hoffers : ∃ u, s.member? base name = some (.value u) ∧ u.isContainer = true
    · obtain ⟨u, hu, hu'⟩ := hoffers
      obtain ⟨w, hw, -, hcopied⟩ := h.containers hname hu hu'
      cases hw.symm.trans hv
      exact ⟨hcopied.there, hcopied.new⟩
    · have hnone := (h.others hname fun u hu => Bool.eq_false_iff.mpr fun h => hoffers ⟨u, hu, h⟩).1
      cases hnone.symm.trans hv

theorem of_retains {m m' : Machine} {V : Value → Prop} (h : s.Offshoot base m.store e) (hretains : m.Retains V m')
    (hV : ∀ v, V v → v.isContainer = true → s.Stands v) (htypes : ∀ c, ¬ V (.type c))
    (habove : ∀ j ∈ (s.type base).ancestry, m.store.Stands (.type j)) : s.Offshoot base m'.store e := by
  have htype (c : Nat) (hc : m.store.Stands (.type c)) : m'.store.type c = m.store.type c :=
    hretains.same (.type c) hc (htypes c)
  have htabled (v : Value) : m'.store.Tabled e v ↔ m.store.Tabled e v := Lasts.tabled (.inl (htype e h.stands))
  refine ⟨h.new, hretains.stands _ h.stands, by rw [htype e h.stands, h.ancestry], fun name hname => ?_, fun v hv => ?_⟩
  · refine (h.renders name hname).of_same (fun j hj => ?_) (htype e h.stands) fun w hw hcontainer => ?_
    · rw [h.ancestry] at hj
      obtain rfl | hj := List.mem_cons.mp hj
      · exact htype _ h.stands
      · exact htype j (habove j hj)
    · obtain ⟨hnow, hnew⟩ := h.tables w ⟨name, hname, hw, hcontainer⟩
      exact hretains.same w hnow fun hv => hnew (hV w hv hcontainer)
  · obtain ⟨hnow, hnew⟩ := h.tables v ((htabled v).mp hv)
    exact ⟨hretains.stands v hnow, hnew⟩

theorem since {s₀ : Store} (h : s.Offshoot base s' e) (hstands : ∀ v, s₀.Stands v → s.Stands v)
    (htypes : s.type base = s₀.type base) (hmember : ∀ name, s.member? base name = s₀.member? base name)
    (hsame : ∀ name v, isReserved name = false → s.member? base name = some (.value v) → v.isContainer = true →
      s₀.SameAs s v) : s₀.Offshoot base s' e where
  new he := h.new (hstands _ he)
  stands := h.stands
  ancestry := htypes ▸ h.ancestry
  renders name hname := (h.renders name hname).since (hmember name) fun v => hsame name v hname
  tables v hv := (h.tables v hv).imp_right fun hnew hv => hnew (hstands v hv)

end Offshoot

/-- What an instance has got for a class that its family offers: a class that was derived from it, or nothing where the
family offers nothing. -/
def Parted (K : Set Nat) (s : Store) (c : Nat) (name : String) (s' : Store) (v : Value) : Prop :=
  s.typeAttr? c name = some .null ∧ v = .null ∨
    ∃ i ∈ K, ∃ e, s.typeAttr? c name = some (.type i) ∧ v = .type e ∧ s.Offshoot i s' e

theorem Parted.of_retains {K : Set Nat} {s : Store} {c : Nat} {name : String} {v : Value} {m m' : Machine}
    {V : Value → Prop} (h : s.Parted K c name m.store v) (hretains : m.Retains V m')
    (hV : ∀ v, V v → v.isContainer = true → s.Stands v) (htypes : ∀ c, ¬ V (.type c))
    (habove : ∀ i ∈ K, ∀ j ∈ (s.type i).ancestry, m.store.Stands (.type j)) : s.Parted K c name m'.store v := by
  obtain h | ⟨i, hi, e, hname, rfl, h⟩ := h
  · exact .inl h
  · exact .inr ⟨i, hi, e, hname, rfl, h.of_retains hretains hV htypes (habove i hi)⟩

/-- A container that a class in common offers is common. -/
theorem common_of_member? {made : Value → List Value} {K : Set Nat} {s : Store} {base : Nat} {name : String} {v : Value}
    (hclosed : ∀ j ∈ (s.type base).ancestry, j ∈ K) (hname : isReserved name = false)
    (hv : s.member? base name = some (.value v)) (hcontainer : v.isContainer = true) : s.Common made K v := by
  obtain ⟨j, hj, hoffer⟩ := List.exists_of_findSome?_eq_some (member?_eq .. ▸ hv)
  refine .table (hclosed j hj) ⟨name, hname, ?_, hcontainer⟩
  rw [offer?] at hoffer
  split at hoffer
  · cases hoffer
    assumption
  · split at hoffer <;> cases hoffer

end Store

namespace Isolated
variable {made : Value → List Value} {F K S : Set Nat} {V : Value → Prop} {m m' : Machine} {c i : Nat} {name : String}

section
variable (h : Isolated made F K S m) (hretains : m.Retains V m') (hV : ∀ v, V v → ¬ m.store.Tracked made K S v)
  (htypes : ∀ i ∈ K, ¬ V (.type i))
include h hretains htypes

theorem type_eq (hi : i ∈ K) : m'.store.type i = m.store.type i := hretains.same _ (h.standing i hi) (htypes i hi)

theorem member?_eq (hi : i ∈ K) (name : String) : m'.store.member? i name = m.store.member? i name := by
  rw [Store.member?_eq, h.type_eq hretains htypes hi, Store.member?_eq]
  exact Store.findSome?_offer?_congr (fun j hj => h.type_eq hretains htypes (h.closed i hi j hj)) name

include hV

/-- What an instance has got for a class was made of what was the same before. -/
theorem parted {s : Store} {v : Value} (hc : c ∈ F) (hv : m'.store.Parted K c name s v) : m.store.Parted K c name s v := by
  have hattr : m'.store.typeAttr? c name = m.store.typeAttr? c name := by
    rw [Store.typeAttr?, h.member?_eq hretains htypes (h.families hc), Store.typeAttr?]
  obtain ⟨hnone, hv⟩ | ⟨i, hi, e, he, hv, hoffshoot⟩ := hv
  · exact .inl ⟨hattr ▸ hnone, hv⟩
  · refine .inr ⟨i, hi, e, hattr ▸ he, hv, hoffshoot.since hretains.stands (h.type_eq hretains htypes hi)
      (h.member?_eq hretains htypes hi) fun name v hname hv hcontainer => ?_⟩
    rw [h.member?_eq hretains htypes hi] at hv
    have hcommon : m.store.Common made K v := Store.common_of_member? (h.closed i hi) hname hv hcontainer
    exact hretains.same v (h.ground v hcommon) fun hv' => hV v hv' (.inl hcommon)

end
end Isolated

namespace Machine

/-- Whether a new instance of a family, all that is in whose dictionary is in a table, is there besides what was there
before. -/
structure Prepares (m : Machine) (c : Nat) (t : Table Value) (m' : Machine) : Prop where
  retains : m.Retains (· = .dict m.store.dicts.size) m'
  self : m'.store.processor m.store.processors.size = ⟨c, m.store.dicts.size, []⟩
  stands : m'.store.Stands (.processor m.store.processors.size)
  fields : m'.store.Stands (.dict m.store.dicts.size)
  shows : ∀ name, m'.store.field? ⟨c, m.store.dicts.size, []⟩ name = t.get? name

namespace Prepares
open Work
variable {made : Value → List Value} {F K S : Set Nat} {m m' m'' : Machine} {c : Nat} {t : Table Value} {name : String}
  {v : Value}

theorem start (m : Machine) (c : Nat) : m.Prepares c [] (withInstance m c) where
  retains := .of_made (.addProcessor m.store c) rfl rfl
  self := by simp [withInstance, Store.processor, Store.addProcessor]
  stands := Nat.lt_of_lt_of_eq (Nat.lt_succ_self _) (Array.size_push _).symm
  fields := Nat.lt_of_lt_of_eq (Nat.lt_succ_self _) (Array.size_push _).symm
  shows name := by
    have hempty : (withInstance m c).store.dict m.store.dicts.size = [] := by
      simp [withInstance, Store.dict, Store.addProcessor]
    rw [Store.field?, hempty]
    rfl

/-- What was there before the instance is the same. -/
theorem sameAs (h : m.Prepares c t m') (hv : m.store.Stands v) : m.store.SameAs m'.store v :=
  h.retains.same v hv fun he => Nat.lt_irrefl _ (show m.store.Stands (.dict m.store.dicts.size) from he ▸ hv)

theorem isolated (h : m.Prepares c t m') (hm : Isolated made F K S m) : Isolated made F K S m' := by
  refine hm.of_retains h.retains (fun c hc => .inl (h.sameAs (hm.standing c hc))) fun v hv htracked => ?_
  subst hv
  exact Nat.lt_irrefl _ (show m.store.Stands (.dict m.store.dicts.size) from hm.stands_of_tracked htracked)

/-- The dictionary of the instance is nobody else's. -/
theorem not_tracked (h : m.Prepares c t m') (hm : Isolated made F K S m) :
    ¬ m'.store.Tracked made K S (.dict m.store.dicts.size) := by
  intro htracked
  have hsame (v : Value) (hv : m.store.Tracked made K S v) : m.store.SameAs m'.store v := h.sameAs (hm.stands_of_tracked hv)
  have hbefore := (Store.tracked_congr hm.closed (fun c hc => .inl (h.sameAs (hm.standing c hc))) hsame).mp htracked
  exact Nat.lt_irrefl _ (show m.store.Stands (.dict m.store.dicts.size) from hm.stands_of_tracked hbefore)

/-- What leaves all as it is leaves the instance as it is. -/
theorem of_retains (h : m.Prepares c t m') (hretains : m'.Retains (fun _ => False) m'') : m.Prepares c t m'' where
  retains := h.retains.trans (hretains.mono fun _ _ => False.elim)
  self := (Option.some.inj (hretains.same _ h.stands id)).trans h.self
  stands := hretains.stands _ h.stands
  fields := hretains.stands _ h.fields
  shows name :=
    (Store.field?_congr ⟨c, m.store.dicts.size, []⟩ (hretains.same _ h.fields id) name).trans (h.shows name)

/-- What is stored on the instance is in its dictionary. -/
theorem stored (h : m.Prepares c t m') (hm : Isolated made F K S m) (hc : c ∈ F) (hname : Store.isReserved name = false)
    (hyields : m'.store.Yields c name) (v : Value) : ∃ m'',
    (setAttribute (.processor m.store.processors.size) name v).Gives m' () m'' ∧ m.Prepares c (t.set name v) m'' ∧
      m'.Retains (· = .dict m.store.dicts.size) m'' := by
  have hregular := (h.isolated hm).regular c hc
  have hset := gives_setField (p := m.store.processors.size) (m := m') hname (by rw [h.self]; exact hregular.stores)
    (by rw [h.self]; exact hyields) (by rw [h.self]; exact hregular.dict) v
  rw [h.self] at hset
  have hretains := Retains.updateDict (V := (· = .dict m.store.dicts.size)) m' m.store.dicts.size
    (fun t => t.set (.str name) v) rfl
  refine ⟨_, hset, ⟨h.retains.trans hretains, h.self, h.stands, hretains.stands _ h.fields, fun other => ?_⟩, hretains⟩
  rw [Store.field?_set ⟨c, m.store.dicts.size, []⟩ h.fields, h.shows, Table.get?_set]

end Prepares
end Machine

namespace Work
open Machine
variable {made : Value → List Value} {F K S : Set Nat} {m m' m'' : Machine} {c : Nat} {t : Table Value} {name : String}
  {v : Value}

/-- Gives an instance a ware of its own, with two empty lists. -/
def giveWare (p : Value) : Work Unit := do
  let attachers ← newList []
  setAttribute p "ware" (← make fun s => s.addEmptyWare p (some attachers))

/-- What the ware of a new instance is: it has two empty lists, of attachers and of steps, all of which is new. -/
structure Outfits (m : Machine) (w a f : Nat) (m' : Machine) : Prop where
  ware : (m'.store.runner.ware w).rested = .new (.processor m.store.processors.size) (.list f) (some (.list a))
  ne : a ≠ f
  attachers : m'.store.list a = []
  steps : m'.store.list f = []
  stands : m'.store.Stands (.ware w) ∧ m'.store.Stands (.list a) ∧ m'.store.Stands (.list f)
  new : ¬ m.store.Stands (.ware w) ∧ ¬ m.store.Stands (.list a) ∧ ¬ m.store.Stands (.list f)

theorem Outfits.of_retains {w a f : Nat} (h : Outfits m w a f m')
    (hretains : m'.Retains (· = .dict m.store.dicts.size) m'') : Outfits m w a f m'' where
  ware := Eq.trans (hretains.same (.ware w) h.stands.1 nofun) h.ware
  ne := h.ne
  attachers := Eq.trans (hretains.same (.list a) h.stands.2.1 nofun) h.attachers
  steps := Eq.trans (hretains.same (.list f) h.stands.2.2 nofun) h.steps
  stands := ⟨hretains.stands _ h.stands.1, hretains.stands _ h.stands.2.1, hretains.stands _ h.stands.2.2⟩
  new := h.new

theorem gives_giveWare (hm : Isolated made F K S m) (hc : c ∈ F) : ∃ w a f m',
    (giveWare (.processor m.store.processors.size)).Gives (withInstance m c) () m' ∧
      m.Prepares c [("ware", .ware w)] m' ∧ Outfits m w a f m' := by
  let n := m.store.processors.size
  let m₁ : Machine := withInstance m c
  let m₂ : Machine := { m₁ with store := (m₁.store.addList []).2 }
  let m₃ : Machine := { m₂ with store := (m₂.store.addList []).2 }
  let w : Ware := .new (.processor n) (.list m₂.store.lists.size) (some (.list m₁.store.lists.size))
  let m₄ : Machine := { m₃ with store := (m₃.store.addWare w).2 }
  -- The two lists and the ware are made one after the other, each behind all that is there.
  have h₁ : m.Prepares c [] m₁ := .start m c
  have h₂ : m.Prepares c [] m₂ := h₁.of_retains (.of_made (.addList _ _) rfl rfl)
  have h₃ : m.Prepares c [] m₃ := h₂.of_retains (.of_made (.addList _ _) rfl rfl)
  have h₄ : m.Prepares c [] m₄ := h₃.of_retains (.of_made (.addWare _ _) rfl rfl)
  have hregular := (h₄.isolated hm).regular c hc
  have hyields : m₄.store.Yields c "ware" := fun v hv => Store.mute_of_isInert (hregular.ware v hv) _
  obtain ⟨m₅, hset, h₅, hretains⟩ := h₄.stored hm hc (by decide +kernel) hyields (.ware m₃.store.runner.wares.size)
  refine ⟨m₃.store.runner.wares.size, m₁.store.lists.size, m₂.store.lists.size, m₅, ?_, h₅, ?_⟩
  · have hlist : (newList []).Gives m₁ (.list m₁.store.lists.size) m₂ := fun _ => rfl
    have hware : (make fun s => s.addEmptyWare (.processor n) (some (.list m₁.store.lists.size))).Gives m₂
        (.ware m₃.store.runner.wares.size) m₄ := fun _ => rfl
    exact hlist.bind (hware.bind hset)
  · have hsize : m₂.store.lists.size = m₁.store.lists.size + 1 := Array.size_push _
    have hsize' : m₄.store.lists.size = m₂.store.lists.size + 1 := Array.size_push _
    have hwares : m₄.store.runner.wares.size = m₃.store.runner.wares.size + 1 := Array.size_push _
    refine Outfits.of_retains (?_ : Outfits m _ _ _ m₄) hretains
    refine ⟨?_, ?_, ?_, ?_, ⟨?_, ?_, ?_⟩, ?_, ?_, ?_⟩
    · show ((m₃.store.runner.wares.push w).getD m₃.store.runner.wares.size default).rested = w
      simp [w, Ware.rested, Ware.new]
    · omega
    · show (((m₁.store.lists.push #[]).push #[]).getD m₁.store.lists.size #[]).toList = []
      simp [Array.getElem_push]
    · show ((m₂.store.lists.push #[]).getD m₂.store.lists.size #[]).toList = []
      simp
    · exact Nat.lt_of_lt_of_eq (Nat.lt_succ_self _) hwares.symm
    · show m₁.store.lists.size < m₄.store.lists.size
      omega
    · show m₂.store.lists.size < m₄.store.lists.size
      omega
    · exact Nat.lt_irrefl m.store.runner.wares.size
    · exact Nat.lt_irrefl m.store.lists.size
    · show ¬ m₂.store.lists.size < m₁.store.lists.size
      omega

/-- Gives an instance a class of its own, derived from the one that its family offers. -/
def givePart (p : Value) (c : Nat) (name : String) : Work Unit := do
  setAttribute p name (← deriveFor (← attr (.type c) name))

theorem gives_givePart (hm : Isolated made F K S m) (hc : c ∈ F) (h : m.Prepares c t m') (name : String)
    (hname : name ∈ ["Parser", "Compiler"]) : ∃ v m'',
    (givePart (.processor m.store.processors.size) c name).Gives m' () m'' ∧ m.Prepares c (t.set name v) m'' ∧
      m'.Retains (· = .dict m.store.dicts.size) m'' ∧ m'.store.Parted K c name m''.store v := by
  have hm' := h.isolated hm
  have hreserved : Store.isReserved name = false := by
    simp only [List.mem_cons, List.not_mem_nil, or_false] at hname
    obtain rfl | rfl := hname <;> decide +kernel
  obtain ⟨v, hv, hpart⟩ := (hm'.regular c hc).part name hname
  have hinert : v.isInert = true := by
    obtain rfl | ⟨i, -, rfl, -⟩ := hpart <;> rfl
  have hattr : (attr (.type c) name).Gives m' v m' := gives_classAttr hreserved hv (Store.mute_of_isInert hinert _)
  have hyields {m₂ : Machine} (h₂ : m.Prepares c t m₂) : m₂.store.Yields c name := by
    obtain ⟨u, hu, hpart⟩ := ((h₂.isolated hm).regular c hc).part name hname
    intro w hw
    cases hu.symm.trans hw
    obtain rfl | ⟨i, -, rfl, -⟩ := hpart <;> exact Store.mute_of_isInert rfl _
  -- Where the family offers nothing there is nothing to derive from.
  obtain rfl | ⟨i, hi, rfl, hordinary⟩ := hpart
  · obtain ⟨m'', hset, hprepares, hretains⟩ := h.stored hm hc hreserved (hyields h) .null
    have hderive : (deriveFor .null).Gives m' .null m' := fun _ => rfl
    exact ⟨.null, m'', hattr.bind (hderive.bind hset), hprepares, hretains, .inl ⟨hv, rfl⟩⟩
  · obtain ⟨documented, hgives⟩ := gives_deriveType hm'.housed hordinary
    obtain ⟨type, hdrawn, -⟩ := Store.drawn_derive hm'.housed i documented
    generalize (m'.store.derive i documented).1 = e at hgives hdrawn
    have henlarges := Store.Enlarges.derive hdrawn
    generalize (m'.store.derive i documented).2 = s at hgives hdrawn henlarges
    let m₁ : Machine := { m' with store := s }
    have hretains₁ : m'.Retains (fun _ => False) m₁ := .of_enlarges henlarges hdrawn.housed
    have hoffshoot : m'.store.Offshoot i s e := .of_derived (hdrawn.derived hm'.housed) hdrawn.there
    have h₁ := h.of_retains hretains₁
    obtain ⟨m'', hset, hprepares, hretains⟩ := h₁.stored hm hc hreserved (hyields h₁) (.type e)
    have hderive : (deriveFor (.type i)).Gives m' (.type e) m₁ := hgives.bind fun _ => rfl
    refine ⟨.type e, m'', hattr.bind (hderive.bind hset), hprepares,
      (hretains₁.mono fun _ _ => False.elim).trans hretains, .inr ⟨i, hi, e, hv, rfl, ?_⟩⟩
    refine Store.Offshoot.of_retains (m := m₁) hoffshoot hretains (fun v hv _ => hv ▸ h.fields) (fun _ hj => by cases hj)
      fun j hj => ?_
    exact hretains₁.stands _ (hm'.standing j (hm'.closed i hi j hj))

/-- Gives an instance all but its data. -/
def equip (p : Value) (c : Nat) : Work Unit := do
  giveWare p
  givePart p c "Parser"
  givePart p c "Compiler"

/-- Gives an instance a copy of the data of its family, unless that offers none. -/
def giveData (p : Value) (c : Nat) : Work Unit := do
  let data ← attr (.type c) "data"
  if data ≠ .null then setAttribute p "data" (← deepCopy data)

/-- Logs that an instance of a family has been made. -/
def logCreated (c : Nat) : Work Unit := do
  log "unified.processor" .debug "processor.created" [("processor", ← attr (.type c) "name")]

/-- What an instance is when it has got its classes: they were made after it had got its ware, with which nothing has
happened since. -/
structure Equipping (K : Set Nat) (m : Machine) (c w a f : Nat) (v₁ v₂ : Value) (m₁ m' : Machine) : Prop where
  prepares : m.Prepares c [("ware", .ware w)] m₁
  outfits : Outfits m w a f m₁
  retains : m₁.Retains (· = .dict m.store.dicts.size) m'
  parser : m₁.store.Parted K c "Parser" m'.store v₁
  compiler : m₁.store.Parted K c "Compiler" m'.store v₂

theorem Equipping.of_retains {w a f : Nat} {v₁ v₂ : Value} {m₁ : Machine} (h : Equipping K m c w a f v₁ v₂ m₁ m')
    (hm : Isolated made F K S m) (hretains : m'.Retains (· = .dict m.store.dicts.size) m'') :
    Equipping K m c w a f v₁ v₂ m₁ m'' := by
  have hm₁ := h.prepares.isolated hm
  have hparted {name : String} {v : Value} (hv : m₁.store.Parted K c name m'.store v) :
      m₁.store.Parted K c name m''.store v := by
    refine hv.of_retains hretains (fun v hv _ => hv ▸ h.prepares.fields) (fun _ => nofun) fun i hi j hj => ?_
    exact h.retains.stands _ (hm₁.standing j (hm₁.closed i hi j hj))
  exact ⟨h.prepares, h.outfits, h.retains.trans hretains, hparted h.parser, hparted h.compiler⟩

theorem gives_equip (hm : Isolated made F K S m) (hc : c ∈ F) : ∃ w a f v₁ v₂ m₁ m',
    (equip (.processor m.store.processors.size) c).Gives (withInstance m c) () m' ∧
      m.Prepares c [("ware", .ware w), ("Parser", v₁), ("Compiler", v₂)] m' ∧ Equipping K m c w a f v₁ v₂ m₁ m' := by
  -- The second class is derived beside the first one, which is nobody's, so that it is made of what was there before.
  obtain ⟨w, a, f, m₁, hware, h₁, houtfits⟩ := gives_giveWare hm hc
  obtain ⟨v₁, m₂, hparser, h₂, hretains₂, hparted₁⟩ := gives_givePart hm hc h₁ "Parser" (by decide)
  obtain ⟨v₂, m₃, hcompiler, h₃, hretains₃, hparted₂⟩ := gives_givePart hm hc h₂ "Compiler" (by decide)
  have hm₁ := h₁.isolated hm
  refine ⟨w, a, f, v₁, v₂, m₁, m₃, hware.bind (hparser.bind hcompiler), h₃, h₁, houtfits, hretains₂.trans hretains₃, ?_, ?_⟩
  · refine hparted₁.of_retains hretains₃ (fun v hv _ => hv ▸ h₁.fields) (fun _ => nofun) fun i hi j hj => ?_
    exact hretains₂.stands _ (hm₁.standing j (hm₁.closed i hi j hj))
  · exact hm₁.parted hretains₂ (fun v hv => hv ▸ h₁.not_tracked hm) (fun _ _ => nofun) hc hparted₂

theorem prepareProcessor_eq {p : Nat} {args : List Value} {keywords : Table Value} (hpasses : Passes v args keywords)
    (hv : v ≠ .processor p) (hself : (m.store.processor p).type = c) (σ : Service) :
    prepareProcessor (.processor p) args keywords σ m =
      (equip (.processor p) c >>= fun _ => giveData (.processor p) c >>= fun _ => logCreated c) σ m := by
  have hbound := boundArguments_new hpasses "Processor.__init__" (.processor p) "self" (.inr rfl)
  have hfamily : (familyOf (.processor p)).Gives m c m := fun _ => by
    rw [← hself]
    rfl
  unfold prepareProcessor
  rw [hbound]
  show (if v = .processor p then _ else _ : Work Unit) σ m = _
  rw [if_neg hv, hfamily.bind_eq]
  -- The steps are the same, and only bracketed in another way.
  have hite (a : Value) (w : Work Unit) (f : Unit → Work Unit) :
      (if a ≠ .null then w else pure ()) >>= f = if a ≠ .null then w >>= f else f () := by
    split <;> rfl
  simp only [equip, giveWare, givePart, giveData, logCreated, bind_assoc, hite]

/-- A family that is called for anything but one of its instances makes a new one and prepares it. -/
theorem instantiate_eq {args : List Value} {keywords : Table Value} (h : m.store.Regular K c)
    (hpasses : Passes v args keywords) (hv : isInstance m.store v c = false)
    (hne : v ≠ .processor m.store.processors.size) (σ : Service) :
    instantiate c args keywords σ m = (equip (.processor m.store.processors.size) c >>= fun _ =>
      giveData (.processor m.store.processors.size) c >>= fun _ => logCreated c >>= fun _ =>
        pure (.processor m.store.processors.size)) σ (withInstance m c) := by
  let p : Value := .processor m.store.processors.size
  have hself : (withInstance m c).store.processor m.store.processors.size = ⟨c, m.store.dicts.size, []⟩ :=
    (Prepares.start m c).self
  have hmade : allocate c args keywords σ m = (.done p, withInstance m c) := by
    obtain ⟨j, hj⟩ := h.makes
    have hbound := boundArguments_new hpasses "Processor.__new__" (.type c) "cls" (.inl rfl)
    unfold allocate
    rw [bind_eq]
    dsimp only [store]
    rw [hj, hbound]
    change (if isInstance m.store v c then pure v else newInstance c : Work Value) σ m = _
    rw [hv, if_neg (by decide)]
    change (Outcome.done (m.store.addInstance c).1, { m with store := (m.store.addInstance c).2 }) = _
    rw [Store.addInstance, if_pos h.family]
    rfl
  have hof : isMadeBy (withInstance m c).store p c = true := by
    show (withInstance m c).store.descends ((withInstance m c).store.processor m.store.processors.size).type c = true
    rw [hself]
    exact h.self
  have hprepare : prepare p args keywords σ (withInstance m c) = prepareProcessor p args keywords σ (withInstance m c) := by
    obtain ⟨j, hj, hrole⟩ := h.prepares
    have hfamily : (familyOf p).Gives (withInstance m c) c (withInstance m c) := fun _ => by
      show (Outcome.done ((withInstance m c).store.processor m.store.processors.size).type, _) = _
      rw [hself]
    have hj' : (withInstance m c).store.member? c "__init__" = some (.inborn j) := hj
    have hrole' : ((withInstance m c).store.type j).role = .family := hrole
    unfold prepare
    rw [(gives_store _).bind_eq, hfamily.bind_eq, hj']
    dsimp only
    rw [hrole']
  rw [instantiate, bind_eq, hmade]
  dsimp only
  rw [(gives_query _ _).bind_eq, if_pos hof, bind_eq, hprepare,
    prepareProcessor_eq hpasses hne (congrArg Instance.type hself), ← bind_eq]
  simp only [bind_assoc]
  rfl

/-- The machine after a new instance of a family has got all but its data. -/
def equipped (m : Machine) (c : Nat) : Machine :=
  (equip (.processor m.store.processors.size) c Service.idle (withInstance m c)).2

/-- What is taken for granted of a deep copy that has been made or has failed: all that was there is as it was; the copy is
equal in structure, and all that can change in it is new. -/
structure Independent (made : Value → List Value) (m : Machine) (d : Value) (out : Outcome Value) (m' : Machine) : Prop where
  retains : m.Retains (fun _ => False) m'
  alike : ∀ v, out = .done v → m.store.Alike made d m'.store v
  fresh : ∀ v, out = .done v → ∀ w, m'.store.Within made v w → w.isMutable = true → m'.store.Stands w ∧ ¬ m.store.Stands w

/-- What is taken for granted of the copy that a family makes of its data for a new instance, which has got all else. -/
def Detaches (made : Value → List Value) (m : Machine) (c : Nat) (σ : Service) : Prop :=
  ∀ d, m.store.typeAttr? c "data" = some d → d ≠ .null →
    Independent made (equipped m c) d (deepCopy d σ (equipped m c)).1 (deepCopy d σ (equipped m c)).2

/-- What an instance is when it is finished. It has got nothing since it had its classes but data, if its family offers any:
a copy of these, all of which is new. -/
structure Finished (made : Value → List Value) (K : Set Nat) (m : Machine) (c w a f : Nat) (v₁ v₂ : Value)
    (m₁ m₂ : Machine) (t : Table Value) (m' : Machine) : Prop where
  equipping : Equipping K m c w a f v₁ v₂ m₁ m₂
  retains : m₂.Retains (· = .dict m.store.dicts.size) m'
  prepares : m.Prepares c t m'
  ware : t.get? "ware" = some (.ware w)
  parser : t.get? "Parser" = some v₁
  compiler : t.get? "Compiler" = some v₂
  unnamed : t.get? "name" = none
  data : m.store.typeAttr? c "data" = some .null ∧ t.get? "data" = none ∨
    ∃ d v, m.store.typeAttr? c "data" = some d ∧ t.get? "data" = some v ∧ m.store.Alike made d m'.store v ∧
      ∀ u, m'.store.Within made v u → u.isMutable = true → m'.store.Stands u ∧ ¬ m₂.store.Stands u

theorem Finished.of_noted {w a f : Nat} {v₁ v₂ : Value} {m₁ m₂ : Machine} (h : Finished made K m c w a f v₁ v₂ m₁ m₂ t m')
    (hnoted : m'.Noted m'') : Finished made K m c w a f v₁ v₂ m₁ m₂ t m'' :=
  { h with
    retains := h.retains.trans (.of_noted hnoted)
    prepares := h.prepares.of_retains (.of_noted hnoted)
    data := by
      rw [hnoted.store]
      exact h.data }

theorem notes_logCreated (hm : Isolated made F K S m) (hc : c ∈ F) (σ : Service) : (logCreated c).Notes σ m := by
  obtain ⟨t, ht⟩ := (hm.regular c hc).named
  have hname : (attr (.type c) "name").Gives m (.str t) m :=
    gives_classAttr (by decide +kernel) ht (Store.mute_of_isInert rfl _)
  refine notes_bind (hname σ) (.refl m) (notes_log hm.tame (by decide) (fun e he => ?_) _ _)
  cases List.mem_singleton.mp he
  exact ⟨rfl, show "processor" ∉ unusualNames by decide⟩

section
variable {args : List Value} {keywords : Table Value} (hm : Isolated made F K S m) (hc : c ∈ F)
include hm hc

/-- What has been copied is like the data that the family offered before there was the instance. -/
theorem alike_since {d : Value} {s' : Store} (h : m.Prepares c t m') (hd : m.store.typeAttr? c "data" = some d)
    (halike : m'.store.Alike made d s' v) : m.store.Alike made d s' v := by
  have hsame (u : Value) (hu : m.store.Within made d u) : m.store.SameAt m'.store u := by
    cases hmutable : u.isMutable with
    | true =>
      have hcommon : m.store.Common made K u := .data (hm.families hc) (hm.regular c hc).family hd hu hmutable
      exact (h.sameAs (hm.ground u hcommon)).sameAt
    | false => exact Store.sameAt_of_not_isMutable hmutable
  refine halike.congr (fun u hu => (hsame u ?_).symm) fun u _ => .refl _ u
  exact (Store.within_congr hsame).mp hu

/-- A new instance gets its data, or nothing comes of it since these cannot be copied. -/
theorem giveData_ends {w a f : Nat} {v₁ v₂ : Value} {m₁ m₂ : Machine} (σ : Service)
    (h : m.Prepares c [("ware", .ware w), ("Parser", v₁), ("Compiler", v₂)] m₂)
    (hequipping : Equipping K m c w a f v₁ v₂ m₁ m₂)
    (hcopy : ∀ d, m.store.typeAttr? c "data" = some d → d ≠ .null →
      Independent made m₂ d (deepCopy d σ m₂).1 (deepCopy d σ m₂).2) :
    (∃ t m', giveData (.processor m.store.processors.size) c σ m₂ = (.done (), m') ∧
      Finished made K m c w a f v₁ v₂ m₁ m₂ t m') ∨
    ∃ out m', giveData (.processor m.store.processors.size) c σ m₂ = (out, m') ∧ out ≠ .done () ∧
      m.Prepares c [("ware", .ware w), ("Parser", v₁), ("Compiler", v₂)] m' ∧
      ∃ d, m.store.typeAttr? c "data" = some d ∧ ∀ u, (deepCopy d σ m₂).1 ≠ .done u := by
  have hm₂ := h.isolated hm
  obtain ⟨d, hd, hmute, -⟩ := (hm₂.regular c hc).data
  have hd' : m.store.typeAttr? c "data" = some d := by
    have hmember := hm.member?_eq h.retains (fun _ _ he => by cases he) (hm.families hc) "data"
    rw [← hd, Store.typeAttr?, Store.typeAttr?, hmember]
  have hattr : (attr (.type c) "data").Gives m₂ d m₂ := gives_classAttr (by decide +kernel) hd hmute
  by_cases hnull : d = .null
  · left
    subst hnull
    refine ⟨_, m₂, hattr.bind_eq _ σ, hequipping, .refl _ _, h, rfl, rfl, rfl, rfl, .inl ⟨hd', rfl⟩⟩
  · obtain ⟨hretains, halike, hfresh⟩ := hcopy d hd' hnull
    have hrun : giveData (.processor m.store.processors.size) c σ m₂ =
        (deepCopy d >>= setAttribute (.processor m.store.processors.size) "data") σ m₂ := by
      refine (hattr.bind_eq _ σ).trans ?_
      rw [if_pos hnull]
    rw [hrun, bind_eq]
    -- The copy is made beside all that is there, and is stored only when it is complete.
    rcases hcopied : deepCopy d σ m₂ with ⟨v | e | _, m₃⟩ <;> rw [hcopied] at hretains halike hfresh
    · left
      have h₃ := h.of_retains hretains
      have hyields : m₃.store.Yields c "data" := by
        obtain ⟨d', hd', hmute', -⟩ := ((h₃.isolated hm).regular c hc).data
        intro u hu
        cases hd'.symm.trans hu
        exact hmute'
      obtain ⟨m₄, hset, h₄, hretains₄⟩ := h₃.stored hm hc (by decide +kernel) hyields v
      have hnew (u : Value) (hu : m₃.store.Within made v u) (hmutable : u.isMutable = true) :
          m₃.store.Stands u ∧ ¬ m₂.store.Stands u := hfresh v rfl u hu hmutable
      have hsame (u : Value) (hu : m₃.store.Within made v u) : m₃.store.SameAt m₄.store u := by
        cases hmutable : u.isMutable with
        | true =>
          obtain ⟨hnow, hnot⟩ := hnew u hu hmutable
          exact (hretains₄.same u hnow fun he => hnot (he ▸ h.fields)).sameAt
        | false => exact Store.sameAt_of_not_isMutable hmutable
      refine ⟨_, m₄, hset σ, hequipping, (hretains.mono fun _ _ => False.elim).trans hretains₄, h₄, rfl, rfl, rfl, rfl,
        .inr ⟨d, v, hd', rfl, ?_, fun u hu hmutable => ?_⟩⟩
      · refine (alike_since hm hc h hd' (halike v rfl)).congr (fun u _ => .refl _ u) hsame
      · obtain ⟨hnow, hnot⟩ := hnew u ((Store.within_congr hsame).mp hu) hmutable
        exact ⟨hretains₄.stands u hnow, hnot⟩
    all_goals
      refine .inr ⟨_, m₃, rfl, fun hu => ?_, h.of_retains hretains, d, hd', fun u hu => ?_⟩
      · cases hu
      · rw [hcopied] at hu
        cases hu

/-- A family that is called for anything but one of its instances gives a new one that is finished, or nothing comes of
it since its data cannot be copied; all that was there stays as it was. -/
theorem instantiate_ends (hpasses : Passes v args keywords) (hv : isInstance m.store v c = false)
    (hstands : m.store.Stands v) (σ : Service) (hcopy : Detaches made m c σ) :
    (∃ w a f v₁ v₂ m₁ m₂ t m', instantiate c args keywords σ m = (.done (.processor m.store.processors.size), m') ∧
      Finished made K m c w a f v₁ v₂ m₁ m₂ t m') ∨
    ∃ t out m', instantiate c args keywords σ m = (out, m') ∧ (∀ u, out ≠ .done u) ∧ m.Prepares c t m' ∧
      ∃ d, m.store.typeAttr? c "data" = some d ∧ ∀ u, (deepCopy d σ (equipped m c)).1 ≠ .done u := by
  have hne : v ≠ .processor m.store.processors.size := by
    rintro rfl
    exact Nat.lt_irrefl _ hstands
  obtain ⟨w, a, f, v₁, v₂, m₁, m₂, hgives, h₂, hequipping⟩ := gives_equip hm hc
  have hequipped : equipped m c = m₂ := congrArg Prod.snd (hgives Service.idle)
  unfold Detaches at hcopy
  rw [hequipped] at hcopy ⊢
  rw [instantiate_eq (hm.regular c hc) hpasses hv hne, hgives.bind_eq, bind_eq]
  obtain ⟨t, m₃, hdata, hfinished⟩ | ⟨out, m₃, hdata, hout, h₃, hfails⟩ := giveData_ends hm hc σ h₂ hequipping hcopy
  · left
    rw [hdata]
    dsimp only
    obtain ⟨u, m₄, hlog, hnoted⟩ := notes_logCreated (hfinished.prepares.isolated hm) hc σ
    rw [bind_eq, hlog]
    exact ⟨w, a, f, v₁, v₂, m₁, m₂, t, m₄, rfl, hfinished.of_noted hnoted⟩
  · right
    rw [hdata]
    cases out with
    | done u => exact absurd rfl hout
    | raised e => exact ⟨_, _, m₃, rfl, nofun, h₃, hfails⟩
    | spent => exact ⟨_, _, m₃, rfl, nofun, h₃, hfails⟩

end

end Work
end Treeworks
