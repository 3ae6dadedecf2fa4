import Treeworks.Proofs.Default.Calls
import Treeworks.Proofs.Own.Fields
import Treeworks.Proofs.Own.Retained

/-! Instances that are isolated: what is one's own is no other's, and belongs to none of the classes that they have in
common. That lasts as long as what changes is one instance's own, and what comes to be its own was nobody else's. -/
namespace Treeworks

namespace Store
variable (made : Value → List Value) (F K S : Set Nat) (s s' : Store)

/-- Whether a class is a family that makes and prepares instances as families do, and neither says how their attributes are
read and stored nor stands in the way of those that they are given. Its parser and its compiler are ordinary classes. -/
structure Regular (c : Nat) : Prop where
  family : s.descends c 0 = true
  self : s.descends c c = true
  makes : ∃ j, s.member? c "__new__" = some (.inborn j)
  prepares : ∃ j, s.Offers c "__init__" j
  direct : s.typeAttr? c "__getattribute__" = none
  stores : s.typeAttr? c "__setattr__" = none
  dict : s.givesDict c = true
  ware : ∀ v, s.typeAttr? c "ware" = some v → v.isInert = true
  named : ∃ t, s.typeAttr? c "name" = some (.str t)
  part : ∀ name ∈ ["Parser", "Compiler"], ∃ v, s.typeAttr? c name = some v ∧
    (v = .null ∨ ∃ i ∈ K, v = .type i ∧ s.Ordinary i)
  data : ∃ d, s.typeAttr? c "data" = some d ∧ s.Mute d ∧ ∀ x, s.instance? d = some x → x.type ∈ K

/-- Whether an instance has a ware that serves it, with a list of attachers and a list of steps, and nothing of its own that
stands in for what wares do to use or attach something. -/
def Serves (p : Nat) : Prop := ∃ w a f, s.field? (s.processor p) "ware" = some (.ware w) ∧ s.Equips w a f ∧
  (s.runner.ware w).context = .processor p ∧ (s.runner.ware w).attrs.get? "attach" = none

/-- Whether an instance is as its family prepares it: it bears the name of the family; its ware has two lists and serves
the instance; all that it has is there; nothing that it is made of is a container of its classes or within its data; its
classes are its own, below classes that are in common, and themselves define each container that they offer. -/
structure Equipped (p : Nat) : Prop where
  family : (s.processor p).type ∈ F
  unnamed : s.field? (s.processor p) "name" = none
  ware : s.Serves p
  stands : ∀ v, s.Own made p v → s.Stands v
  tables : ∀ {i v}, s.IsPart p i → s.Tabled i v → ¬ s.Core p v
  data : ∀ {v}, s.Data made p v → ¬ s.Core p v
  parted : ∀ {i v}, s.IsPart p i → s.Tabled i v → ¬ s.Data made p v
  owned : ∀ {i}, s.IsPart p i → i ∉ K
  above : ∀ {i}, s.IsPart p i → ∃ above, (s.type i).ancestry = i :: above ∧ ∀ j ∈ above, j ∈ K
  covered : ∀ {i name v}, s.IsPart p i → isReserved name = false → s.typeAttr? i name = some v → v.isContainer = true →
    (s.type i).attrs.get? name = some v

/-- Whether something is some instance's own, or belongs to the classes in common. -/
def Tracked (v : Value) : Prop := s.Common made K v ∨ ∃ p ∈ S, s.Own made p v

variable {made F K S s s'} {c p : Nat} {v : Value}

theorem Tracked.mono {T : Set Nat} (hT : T ⊆ S) (h : s.Tracked made K T v) : s.Tracked made K S v := by
  obtain h | ⟨p, hp, h⟩ := h
  · exact .inl h
  · exact .inr ⟨p, hT hp, h⟩

theorem typeAttr?_eq_some {name : String} : s.typeAttr? c name = some v ↔ s.member? c name = some (.value v) := by
  rw [typeAttr?]
  cases s.member? c name with
  | none => simp
  | some member => cases member <;> simp

/-! ### Classes that last -/

section
variable (hclosed : ∀ c ∈ K, ∀ j ∈ (s.type c).ancestry, j ∈ K) (hK : ∀ c ∈ K, s.Lasts s' c)
include hclosed hK

theorem member?_of_lasts (hc : c ∈ K) {name : String} (hname : name ≠ "_default") : s'.member? c name = s.member? c name :=
  (hK c hc).member? (fun j hj => hK j (hclosed c hc j hj)) hname

theorem typeAttr?_of_lasts (hc : c ∈ K) {name : String} (hname : name ≠ "_default") :
    s'.typeAttr? c name = s.typeAttr? c name :=
  (hK c hc).typeAttr? (fun j hj => hK j (hclosed c hc j hj)) hname

theorem Ordinary.of_lasts (h : s.Ordinary c) (hc : c ∈ K) : s'.Ordinary c where
  doc := by
    rw [(hK c hc).doc]
    exact h.doc
  unhooked j hj := by
    rw [(hK c hc).ancestry] at hj
    rw [(hK j (hclosed c hc j hj)).attrs (by decide)]
    exact h.unhooked j hj

/-- A family goes on making instances as families do while its classes last, and the data that it offers are the same. -/
theorem Regular.of_lasts (h : s.Regular K c) (hc : c ∈ K) (hdata : ∀ v, s.Common made K v → s.SameAs s' v) :
    s'.Regular K c := by
  have hattr {name : String} (hname : name ≠ "_default") : s'.typeAttr? c name = s.typeAttr? c name :=
    typeAttr?_of_lasts hclosed hK hc hname
  obtain ⟨d, hd, hmute, hinstance⟩ := h.data
  -- The data are common if they can change, so that they are an instance of what they were.
  have hsame : s'.instance? d = s.instance? d := by
    cases hmutable : d.isMutable with
    | true => exact instance?_of_sameAt (hdata d (.data hc h.family hd .refl hmutable)).sameAt
    | false => exact instance?_of_sameAt (sameAt_of_not_isMutable hmutable)
  have hclass (x : Instance) (hx : s'.instance? d = some x) {name : String} (hname : name ≠ "_default") :
      s'.typeAttr? x.type name = s.typeAttr? x.type name :=
    typeAttr?_of_lasts hclosed hK (hinstance x (hsame ▸ hx)) hname
  refine ⟨((hK c hc).descends 0).trans h.family, ((hK c hc).descends c).trans h.self, ?_, ?_, ?_, ?_, ?_, ?_, ?_, ?_, ?_⟩
  · rw [member?_of_lasts hclosed hK hc (by decide)]
    exact h.makes
  · obtain ⟨j, hj, hrole⟩ := h.prepares
    have hmem : j ∈ (s.type c).ancestry := by
      obtain ⟨i, hi, hoffer⟩ := List.exists_of_findSome?_eq_some hj
      split at hoffer
      · cases hoffer
      · split at hoffer
        · cases hoffer
          exact hi
        · cases hoffer
    refine ⟨j, ?_, ?_⟩
    · rw [member?_of_lasts hclosed hK hc (by decide)]
      exact hj
    · rw [(hK j (hclosed c hc j hmem)).role, hrole]
  · rw [hattr (by decide)]
    exact h.direct
  · rw [hattr (by decide)]
    exact h.stores
  · rw [givesDict, (hK c hc).extras]
    exact h.dict
  · rw [hattr (by decide)]
    exact h.ware
  · rw [hattr (by decide)]
    exact h.named
  · intro name hname
    have hne : name ≠ "_default" := by
      rintro rfl
      exact absurd hname (by decide)
    obtain ⟨v, hv, hpart⟩ := h.part name hname
    refine ⟨v, (hattr hne).trans hv, hpart.imp_right ?_⟩
    rintro ⟨i, hi, hvi, hordinary⟩
    exact ⟨i, hi, hvi, hordinary.of_lasts hclosed hK hi⟩
  · refine ⟨d, (hattr (by decide)).trans hd, ⟨hmute.ne_slot, fun x hx => ?_, fun x hx => ?_⟩, hsame ▸ hinstance⟩
    · rw [hclass x hx (by decide)]
      exact hmute.unread x (hsame ▸ hx)
    · rw [hclass x hx (by decide)]
      exact hmute.unwritten x (hsame ▸ hx)

/-! ### Instances that stay as they were prepared -/

omit hclosed hK

theorem SameCore.serves (hcore : s.SameCore s' p) (h : s.Serves p) (hstands : ∀ v, s'.Core p v → s'.Stands v) :
    s'.Serves p := by
  obtain ⟨w, a, f, hw, hequips, hcontext, hattach⟩ := h
  have hw' : s'.field? (s'.processor p) "ware" = some (.ware w) := (hcore.field? (by decide)).trans hw
  have hattr {α : Type} (g : Ware → α) (hg : ∀ x : Ware, g x.rested = g x) :
      g (s'.runner.ware w) = g (s.runner.ware w) := hcore.wareAttr hw g hg
  have hattachers := (hattr Ware.attachers fun _ => rfl).trans hequips.attachers
  have hsteps := (hattr Ware.steps fun _ => rfl).trans hequips.steps
  have hlist : s'.Stands (.list a) := hstands _ (.attachers hw' hattachers)
  have hlist' : s'.Stands (.list f) := hstands _ (hsteps ▸ .steps hw')
  refine ⟨w, a, f, hw', ⟨hattachers, hsteps, hequips.ne, hlist, hlist', ?_⟩, ?_, ?_⟩
  · exact (hattr (fun x => x.attrs.get? "use") fun _ => rfl).trans hequips.own
  · exact (hattr Ware.context fun _ => rfl).trans hcontext
  · exact (hattr (fun x => x.attrs.get? "attach") fun _ => rfl).trans hattach

/-- None of the classes in common is an instance's own. -/
theorem Equipped.not_own_type (h : s.Equipped made F K p) (hc : c ∈ K) : ¬ s.Own made p (.type c) := by
  -- Of what an instance has of its own no more than its parts are classes, and these are not in common.
  obtain ⟨w, a, f, hw, hequips, -⟩ := h.ware
  generalize hv : Value.type c = v
  intro hown
  cases hown with
  | core hcore =>
    cases hcore with
    | self | fields | ware hw => cases hv
    | steps hw' =>
      cases hw.symm.trans hw'
      rw [hequips.steps] at hv
      cases hv
    | attachers hw' ha =>
      cases hw.symm.trans hw'
      rw [hequips.attachers] at ha
      cases ha
      cases hv
    | type hi =>
      cases hv
      exact h.owned hi hc
  | step hk => cases hv
  | table hi htabled =>
    cases hv
    obtain ⟨_, _, _, hcontainer⟩ := htabled
    cases hcontainer
  | data hdata =>
    cases hv
    obtain ⟨_, _, _, hmutable⟩ := hdata
    cases hmutable

include hK

/-- A class of an instance that is the same still defines each container that it offers. -/
theorem Equipped.covered_of_type {i : Nat} {name : String} {v : Value} (h : s.Equipped made F K p) (hi : s.IsPart p i)
    (htype : s'.type i = s.type i) (hname : isReserved name = false) (hv : s'.typeAttr? i name = some v)
    (hcontainer : v.isContainer = true) : (s'.type i).attrs.get? name = some v := by
  obtain ⟨above, hancestry, hin⟩ := h.above hi
  have habove (j : Nat) (hj : j ∈ (s.type i).ancestry) : s.Lasts s' j := by
    rw [hancestry] at hj
    obtain rfl | hj := List.mem_cons.mp hj
    · exact .inl htype
    · exact hK j (hin j hj)
  -- The classes above may have noted defaults meanwhile, but these are no containers.
  have hbefore := Lasts.member?_of_isContainer (.inl htype) habove hcontainer (typeAttr?_eq_some.mp hv)
  rw [htype]
  exact h.covered hi hname (typeAttr?_eq_some.mpr hbefore) hcontainer

/-- An instance is still as it was prepared if it is the same apart from its data, its classes are the same, and what has
come into its data was not its own before. -/
theorem Equipped.renewed (h : s.Equipped made F K p) (hstands : ∀ v, s.Own made p v → s'.Stands v) (hcore : s.SameCore s' p)
    (hparts : ∀ {i}, s.IsPart p i → s'.type i = s.type i)
    (hdata : ∀ v, s'.Data made p v → s.Data made p v ∨ s'.Stands v ∧ ¬ s.Own made p v)
    (hsteps : ∀ k, s'.Registered p k → s.Registered p k ∨ s'.Stands (.step k)) : s'.Equipped made F K p := by
  have htabled {i : Nat} (hi : s.IsPart p i) {v : Value} : s'.Tabled i v ↔ s.Tabled i v := Lasts.tabled (.inl (hparts hi))
  have hown (v : Value) (hv : s'.Own made p v) : s'.Stands v := by
    cases hv with
    | core hv => exact hstands v (.core (hcore.core.mp hv))
    | step hk => exact (hsteps _ hk).elim (fun hk => hstands _ (.step hk)) id
    | table hi hv =>
      have hi := (hcore.isPart _).mp hi
      exact hstands v (.table hi ((htabled hi).mp hv))
    | data hv => exact (hdata v hv).elim (fun hv => hstands v (.data hv)) And.left
  refine ⟨hcore.self ▸ h.family, (hcore.field? (by decide)).trans h.unnamed, ?_, hown, ?_, ?_, ?_, ?_, ?_, ?_⟩
  · exact hcore.serves h.ware fun v hv => hown v (.core hv)
  · intro i v hi hv hv'
    have hi := (hcore.isPart i).mp hi
    exact h.tables hi ((htabled hi).mp hv) (hcore.core.mp hv')
  · intro v hv hv'
    have hv' := hcore.core.mp hv'
    exact (hdata v hv).elim (fun hv => h.data hv hv') fun hnew => hnew.2 (.core hv')
  · intro i v hi hv hv'
    have hi := (hcore.isPart i).mp hi
    have hv := (htabled hi).mp hv
    exact (hdata v hv').elim (h.parted hi hv) fun hnew => hnew.2 (.table hi hv)
  · exact fun hi => h.owned ((hcore.isPart _).mp hi)
  · intro i hi
    have hi := (hcore.isPart i).mp hi
    rw [hparts hi]
    exact h.above hi
  · intro i name v hi hname hv hcontainer
    have hi := (hcore.isPart i).mp hi
    exact h.covered_of_type hK hi (hparts hi) hname hv hcontainer

/-- An instance is still as it was prepared if its own things are the same. -/
theorem Equipped.of_same (h : s.Equipped made F K p) (hstands : ∀ v, s.Own made p v → s'.Stands v)
    (hown : ∀ v, s.Own made p v → s.SameAs s' v) : s'.Equipped made F K p := by
  have hcore : s.SameCore s' p := sameCore_of_core fun v hv => hown v (.core hv)
  have hfield := field?_congr _ (hown _ (.core .fields)) "data"
  refine h.renewed hK hstands hcore (fun hi => hown _ (.core (.type hi))) (fun v hv => .inl ?_) (fun k hk => .inl ?_)
  · exact (data_congr hcore.self hfield fun v hv => hown v (.data hv)).mp hv
  · exact (hcore.registered fun f hf => hown _ (.core hf)).mp hk

section
variable {i : Nat} {Q : Value → Prop} (hcore : s.SameCore s' p)
  (hsame : ∀ v, s.Own made p v → v ≠ .type i → s.SameAs s' v)
  (htabled : ∀ v, s'.Tabled i v → (∃ j, s.IsPart p j ∧ s.Tabled j v) ∨ Q v)
include hcore hsame

omit hK in
theorem data_of_retabled {v : Value} : s'.Data made p v ↔ s.Data made p v := by
  have hfields : s'.dict (s.processor p).fields = s.dict (s.processor p).fields := hsame _ (.core .fields) nofun
  refine data_congr hcore.self (field?_congr _ hfields _) fun v hv => hsame v (.data hv) ?_
  rintro rfl
  obtain ⟨_, _, _, hmutable⟩ := hv
  cases hmutable

include htabled

omit hK hcore in
theorem tabled_of_retabled {j : Nat} {v : Value} (hj : s.IsPart p j) (hv : s'.Tabled j v) :
    (∃ j, s.IsPart p j ∧ s.Tabled j v) ∨ Q v := by
  by_cases hji : j = i
  · exact htabled v (hji ▸ hv)
  · have hother : s'.type j = s.type j := hsame _ (.core (.type hj)) fun he => hji (Value.type.inj he)
    exact .inl ⟨j, hj, (Lasts.tabled (.inl hother)).mp hv⟩

omit hK in
/-- What is an instance's own was so before, or has come into one of its classes. -/
theorem own_of_retabled {v : Value} (hv : s'.Own made p v) : s.Own made p v ∨ Q v := by
  cases hv with
  | core hv => exact .inl (.core (hcore.core.mp hv))
  | step hk => exact .inl (.step ((hcore.registered fun f hf => hsame _ (.core hf) nofun).mp hk))
  | table hj hv =>
    refine (tabled_of_retabled hsame htabled ((hcore.isPart _).mp hj) hv).imp_left ?_
    exact fun ⟨_, hj, hv⟩ => .table hj hv
  | data hv => exact .inl (.data ((data_of_retabled hcore hsame).mp hv))

end

/-- An instance is still as it was prepared if no more has come to be its own than a container that one of its classes
now defines, which is there and was not its own before. -/
theorem Equipped.retabled (h : s.Equipped made F K p) {i : Nat} (hi : s.IsPart p i)
    (hstands : ∀ v, s.Own made p v → s'.Stands v) (hcore : s.SameCore s' p)
    (hsame : ∀ v, s.Own made p v → v ≠ .type i → s.SameAs s' v)
    (hancestry : (s'.type i).ancestry = (s.type i).ancestry)
    (htabled : ∀ v, s'.Tabled i v → (∃ j, s.IsPart p j ∧ s.Tabled j v) ∨ s'.Stands v ∧ ¬ s.Own made p v)
    (hcovered : ∀ {name v}, isReserved name = false → s'.typeAttr? i name = some v → v.isContainer = true →
      (s'.type i).attrs.get? name = some v) : s'.Equipped made F K p := by
  have hother {j : Nat} (hj : s.IsPart p j) (hne : j ≠ i) : s'.type j = s.type j :=
    hsame _ (.core (.type hj)) fun he => hne (Value.type.inj he)
  have htables {j : Nat} (hj : s.IsPart p j) {v : Value} (hv : s'.Tabled j v) :
      (∃ j, s.IsPart p j ∧ s.Tabled j v) ∨ s'.Stands v ∧ ¬ s.Own made p v := tabled_of_retabled hsame htabled hj hv
  have hdata {v : Value} : s'.Data made p v ↔ s.Data made p v := data_of_retabled hcore hsame
  have hown (v : Value) (hv : s'.Own made p v) : s'.Stands v :=
    (own_of_retabled hcore hsame htabled hv).elim (hstands v) And.left
  refine ⟨hcore.self ▸ h.family, (hcore.field? (by decide)).trans h.unnamed, ?_, hown, ?_, ?_, ?_,
    fun hj => h.owned ((hcore.isPart _).mp hj), ?_, ?_⟩
  · exact hcore.serves h.ware fun v hv => hown v (.core hv)
  · intro j v hj hv hv'
    have hv' := hcore.core.mp hv'
    obtain ⟨j', hj', hv⟩ | hnew := htables ((hcore.isPart j).mp hj) hv
    · exact h.tables hj' hv hv'
    · exact hnew.2 (.core hv')
  · exact fun hv hv' => h.data (hdata.mp hv) (hcore.core.mp hv')
  · intro j v hj hv hv'
    have hv' := hdata.mp hv'
    obtain ⟨j', hj', hv⟩ | hnew := htables ((hcore.isPart j).mp hj) hv
    · exact h.parted hj' hv hv'
    · exact hnew.2 (.data hv')
  · intro j hj
    have hj := (hcore.isPart j).mp hj
    by_cases hji : j = i
    · rw [hji, hancestry]
      exact h.above hi
    · rw [hother hj hji]
      exact h.above hj
  · intro j name v hj hname hv hcontainer
    have hj := (hcore.isPart j).mp hj
    by_cases hji : j = i
    · subst hji
      exact hcovered hname hv hcontainer
    · exact h.covered_of_type hK hj (hother hj hji) hname hv hcontainer

include hclosed

theorem tracked_congr (h : ∀ v, s.Tracked made K S v → s.SameAs s' v) : s'.Tracked made K S v ↔ s.Tracked made K S v := by
  have hcommon : s'.Common made K v ↔ s.Common made K v := common_congr hclosed hK fun v hv => h v (.inl hv)
  have hown {p : Nat} (hp : p ∈ S) : s'.Own made p v ↔ s.Own made p v := own_congr fun v hv => h v (.inr ⟨p, hp, hv⟩)
  constructor
  · rintro (hv | ⟨p, hp, hv⟩)
    · exact .inl (hcommon.mp hv)
    · exact .inr ⟨p, hp, (hown hp).mp hv⟩
  · rintro (hv | ⟨p, hp, hv⟩)
    · exact .inl (hcommon.mpr hv)
    · exact .inr ⟨p, hp, (hown hp).mpr hv⟩

end

end Store

/-- Whether some instances are isolated, in a machine that can log: each is as its family prepared it, no two have anything
of their own in common, and none has anything that belongs to some classes, among which are all classes above them and the
families that new instances come from. -/
structure Isolated (made : Value → List Value) (F K S : Set Nat) (m : Machine) : Prop where
  tame : m.Tame
  housed : m.store.Housed
  closed : ∀ c ∈ K, ∀ j ∈ (m.store.type c).ancestry, j ∈ K
  standing : ∀ c ∈ K, m.store.Stands (.type c)
  families : F ⊆ K
  regular : ∀ c ∈ F, m.store.Regular K c
  ground : ∀ v, m.store.Common made K v → m.store.Stands v
  equipped : ∀ p ∈ S, m.store.Equipped made F K p
  apart : ∀ {p q v}, p ∈ S → q ∈ S → m.store.Own made p v → m.store.Own made q v → p = q
  off : ∀ {p v}, p ∈ S → m.store.Own made p v → ¬ m.store.Common made K v

namespace Isolated
variable {made : Value → List Value} {F K S T : Set Nat} {m m' : Machine} {p : Nat} {v : Value}

theorem mono (h : Isolated made F K S m) (hT : T ⊆ S) : Isolated made F K T m :=
  { h with
    equipped := fun p hp => h.equipped p (hT hp)
    apart := fun hp hq => h.apart (hT hp) (hT hq)
    off := fun hp => h.off (hT hp) }

theorem stands_of_tracked (h : Isolated made F K S m) (hv : m.store.Tracked made K S v) : m.store.Stands v := by
  obtain hv | ⟨p, hp, hv⟩ := hv
  · exact h.ground v hv
  · exact (h.equipped p hp).stands v hv

/-- The classes in common themselves are not tracked. -/
theorem not_tracked_type {c : Nat} (h : Isolated made F K S m) (hc : c ∈ K) : ¬ m.store.Tracked made K S (.type c) := by
  rintro (hcommon | ⟨p, hp, hown⟩)
  · cases hcommon with
    | table _ htabled =>
      obtain ⟨_, _, _, hcontainer⟩ := htabled
      cases hcontainer
    | data _ _ _ _ hmutable => cases hmutable
  · exact (h.equipped p hp).not_own_type hc hown

/-- What is one instance's own is not tracked for the others. -/
theorem not_tracked (h : Isolated made F K S m) (hp : p ∈ S) (hv : m.store.Own made p v) :
    ¬ m.store.Tracked made K (S \ {p}) v := by
  rintro (hcommon | ⟨q, ⟨hq, hne⟩, hv'⟩)
  · exact h.off hp hv hcommon
  · exact hne (h.apart hq hp hv' hv)

/-- Instances stay isolated when their classes last, and all that is tracked for them stays the same. -/
theorem of_same (h : Isolated made F K S m) (htame : m'.Tame) (hhoused : m'.store.Housed)
    (hK : ∀ c ∈ K, m'.store.Stands (.type c) ∧ m.store.Lasts m'.store c)
    (hstands : ∀ v, m.store.Tracked made K S v → m'.store.Stands v)
    (hsame : ∀ v, m.store.Tracked made K S v → m.store.SameAs m'.store v) : Isolated made F K S m' := by
  have hlasts (c : Nat) (hc : c ∈ K) : m.store.Lasts m'.store c := (hK c hc).2
  have hcommon (v : Value) (hv : m.store.Common made K v) : m.store.SameAs m'.store v := hsame v (.inl hv)
  have hown {p : Nat} (hp : p ∈ S) (v : Value) (hv : m.store.Own made p v) : m.store.SameAs m'.store v :=
    hsame v (.inr ⟨p, hp, hv⟩)
  refine ⟨htame, hhoused, fun c hc j hj => ?_, fun c hc => (hK c hc).1, h.families, fun c hc => ?_, fun v hv => ?_,
    fun p hp => ?_, fun hp hq hv hv' => ?_, fun hp hv hv' => ?_⟩
  · exact h.closed c hc j ((hlasts c hc).ancestry ▸ hj)
  · exact (h.regular c hc).of_lasts h.closed hlasts (h.families hc) hcommon
  · exact hstands v (.inl ((Store.common_congr h.closed hlasts hcommon).mp hv))
  · exact (h.equipped p hp).of_same hlasts (fun v hv => hstands v (.inr ⟨p, hp, hv⟩)) (hown hp)
  · exact h.apart hp hq ((Store.own_congr (hown hp)).mp hv) ((Store.own_congr (hown hq)).mp hv')
  · exact h.off hp ((Store.own_congr (hown hp)).mp hv) ((Store.common_congr h.closed hlasts hcommon).mp hv')

/-- One more instance is isolated if nothing of its own is tracked for the others. -/
theorem insert (h : Isolated made F K S m) (hequipped : m.store.Equipped made F K p)
    (hown : ∀ v, m.store.Own made p v → ¬ m.store.Tracked made K S v) : Isolated made F K (insert p S) m :=
  { h with
    equipped := fun q hq => by
      obtain rfl | hq := hq
      · exact hequipped
      · exact h.equipped q hq
    apart := fun {q r v} hq hr hv hv' => by
      obtain rfl | hq := hq <;> obtain rfl | hr := hr
      · rfl
      · exact absurd (.inr ⟨r, hr, hv'⟩) (hown v hv)
      · exact absurd (.inr ⟨q, hq, hv⟩) (hown v hv')
      · exact h.apart hq hr hv hv'
    off := fun {q v} hq hv hcommon => by
      obtain rfl | hq := hq
      · exact hown v hv (.inl hcommon)
      · exact h.off hq hv hcommon }

section
variable {V : Value → Prop} (h : Isolated made F K S m) (hretains : m.Retains V m')
  (hK : ∀ c ∈ K, m.store.Lasts m'.store c)
include h hretains hK

/-- Instances stay isolated when their classes last, and all is retained but what is tracked for none of them. -/
theorem of_retains (hV : ∀ v, V v → ¬ m.store.Tracked made K S v) : Isolated made F K S m' := by
  refine h.of_same (hretains.tame h.tame) (hretains.housed h.housed) (fun c hc => ?_) (fun v hv => ?_) fun v hv => ?_
  · exact ⟨hretains.stands _ (h.standing c hc), hK c hc⟩
  · exact hretains.stands v (h.stands_of_tracked hv)
  · exact hretains.same v (h.stands_of_tracked hv) fun hv' => hV v hv' hv

variable (hp : p ∈ S) (hV : ∀ v, V v → ¬ m.store.Tracked made K (S \ {p}) v)
include hp hV

/-- Instances stay isolated when something is done through one of them that leaves all others the same, if what comes to be
its own was nobody else's. -/
theorem through (hequipped : m'.store.Equipped made F K p)
    (hbrings : ∀ v, m'.store.Own made p v → ¬ m.store.Tracked made K (S \ {p}) v) : Isolated made F K S m' := by
  -- The others are isolated without it, and it is one more whose own things are not tracked for them.
  have hothers : Isolated made F K (S \ {p}) m' := (h.mono Set.sdiff_subset).of_retains hretains hK hV
  have hsame (v : Value) (hv : m.store.Tracked made K (S \ {p}) v) : m.store.SameAs m'.store v :=
    hretains.same v (h.stands_of_tracked (hv.mono Set.sdiff_subset)) fun hv' => hV v hv' hv
  have hall := hothers.insert hequipped fun v hv htracked =>
    hbrings v hv ((Store.tracked_congr h.closed hK hsame).mp htracked)
  rwa [Set.insert_sdiff_singleton, Set.insert_eq_of_mem hp] at hall

/-- Instances stay isolated when one of them gets data and steps that were nobody's. -/
theorem renewed (hcore : m.store.SameCore m'.store p) (hparts : ∀ {i}, m.store.IsPart p i → ¬ V (.type i))
    (hdata : ∀ v, m'.store.Data made p v → m.store.Data made p v ∨
      m'.store.Stands v ∧ ¬ m.store.Tracked made K S v)
    (hsteps : ∀ k, m'.store.Registered p k → m.store.Registered p k ∨
      m'.store.Stands (.step k) ∧ ¬ m.store.Stands (.step k)) : Isolated made F K S m' := by
  have hequipped := h.equipped p hp
  have htypes {i : Nat} (hi : m.store.IsPart p i) : m'.store.type i = m.store.type i :=
    hretains.same (.type i) (hequipped.stands _ (.core (.type hi))) (hparts hi)
  refine h.through hretains hK hp hV ?_ fun v hv => ?_
  · refine hequipped.renewed hK (fun v hv => hretains.stands v (hequipped.stands v hv)) hcore htypes (fun v hv => ?_)
      fun k hk => (hsteps k hk).imp_right And.left
    exact (hdata v hv).imp_right fun hnew => ⟨hnew.1, fun hown => hnew.2 (.inr ⟨p, hp, hown⟩)⟩
  · cases hv with
    | core hv => exact h.not_tracked hp (.core (hcore.core.mp hv))
    | step hk =>
      obtain hk | ⟨-, hnew⟩ := hsteps _ hk
      · exact h.not_tracked hp (.step hk)
      · exact fun htracked => hnew (h.stands_of_tracked (htracked.mono Set.sdiff_subset))
    | table hi hv =>
      have hi := (hcore.isPart _).mp hi
      exact h.not_tracked hp (.table hi ((Store.Lasts.tabled (.inl (htypes hi))).mp hv))
    | data hv =>
      obtain hv | ⟨-, hnew⟩ := hdata v hv
      · exact h.not_tracked hp (.data hv)
      · exact fun htracked => hnew (htracked.mono Set.sdiff_subset)

end

end Isolated
end Treeworks
