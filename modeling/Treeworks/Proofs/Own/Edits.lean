import Treeworks.Proofs.Own.Isolated

/-! What is done through one of some isolated instances: containers that its classes define are changed, attributes of
these classes are set, its data are changed at any depth, and its family notes it as the default. The instances stay
isolated, and all that belongs to the others or to everybody stays the same. -/
namespace Treeworks

/-- Whether the defaults that families have noted are among some instances. -/
def Store.Listed (F S : Set Nat) (s : Store) : Prop :=
  ∀ c ∈ F, s.noted c ≠ .null → ∃ p ∈ S, s.noted c = .processor p

/-- Whether what has come into the data of an instance is there, and was nobody's. -/
def Store.Obtains (made : Value → List Value) (K S : Set Nat) (s : Store) (p : Nat) (s' : Store) : Prop :=
  ∀ v, s'.Data made p v → s.Data made p v ∨ s'.Stands v ∧ ¬ s.Tracked made K S v

/-- What becomes of isolated instances by what is done through some of them. They stay isolated, perhaps with more of them;
each goes on to be made of what it was made of; classes last; and all that belongs to the others or to everybody is the
same. -/
structure LeavesOthers (made : Value → List Value) (F K P S : Set Nat) (m : Machine) (T : Set Nat) (m' : Machine) : Prop where
  isolated : Isolated made F K T m'
  grows : S ⊆ T
  lasts : ∀ c ∈ K, m.store.Lasts m'.store c
  core : ∀ p ∈ S, m.store.SameCore m'.store p
  same : ∀ v, m.store.Tracked made K (S \ P) v → m.store.SameAs m'.store v
  listed : m.store.Listed F S → m'.store.Listed F T

/-- To store an attribute on a class changes neither its ancestry nor its methods, nor any other attribute. -/
theorem Store.setTypeAttr_eq {s s' : Store} {i : Nat} {name : String} {v : Value} (h : s.setTypeAttr i name v = .ok s') :
    ∃ g : TypeDef → TypeDef, s' = s.updateType i g ∧ (∀ t, (g t).ancestry = t.ancestry) ∧ (∀ t, (g t).role = t.role) ∧
      ∀ t key, (g t).attrs.get? key = t.attrs.get? key ∨ key = name ∧ (g t).attrs.get? key = some v := by
  have hstored (t : TypeDef) (key : String) :
      (t.attrs.set name v).get? key = t.attrs.get? key ∨ key = name ∧ (t.attrs.set name v).get? key = some v := by
    rw [Table.get?_set]
    split
    · rename_i hkey
      exact .inr ⟨hkey.symm, rfl⟩
    · exact .inl rfl
  -- Some names stand for fields of the class, which are not among its attributes.
  unfold setTypeAttr at h
  split at h
  · split at h
    · obtain ⟨-, -, h⟩ := Except.bind_eq_ok h
      cases h
      exact ⟨_, rfl, fun _ => rfl, fun _ => rfl, fun _ _ => .inl rfl⟩
    · cases h
  split at h
  · split at h
    · cases h
      exact ⟨_, rfl, fun _ => rfl, fun _ => rfl, fun _ _ => .inl rfl⟩
    · cases h
  split at h
  · cases h
    exact ⟨_, rfl, fun _ => rfl, fun _ => rfl, fun _ _ => .inl rfl⟩
  split at h
  · cases h
    exact ⟨_, rfl, fun _ => rfl, fun _ => rfl, fun _ _ => .inl rfl⟩
  split at h
  · cases h
  split at h
  · cases h
  · cases h
    exact ⟨_, rfl, fun _ => rfl, fun _ => rfl, hstored⟩

/-- A class of an instance still defines itself each container that it offers if no attribute of it has gone. -/
theorem Store.Equipped.covered_of_attrs {made : Value → List Value} {F K : Set Nat} {s s' : Store} {p i : Nat} {name : String}
    {v : Value} (h : s.Equipped made F K p) (hi : s.IsPart p i) (habove : ∀ j ∈ K, s'.type j = s.type j)
    (hancestry : (s'.type i).ancestry = (s.type i).ancestry) (hrole : (s'.type i).role = (s.type i).role)
    (hattrs : (s'.type i).attrs.get? name = none → (s.type i).attrs.get? name = none)
    (hname : isReserved name = false) (hv : s'.typeAttr? i name = some v) (hcontainer : v.isContainer = true) :
    (s'.type i).attrs.get? name = some v := by
  obtain ⟨above, hi', hin⟩ := h.above hi
  rw [typeAttr?_eq_some, member?_eq, hancestry, hi', List.findSome?_cons] at hv
  cases hget : (s'.type i).attrs.get? name with
  | some w =>
    rw [offer?, hget] at hv
    cases hv
    rfl
  | none =>
    -- Then it offers the container as it did before, when it defined it.
    have hbefore : (s.type i).attrs.get? name = some v := by
      refine h.covered hi hname ?_ hcontainer
      rw [typeAttr?_eq_some, member?_eq, hi', List.findSome?_cons]
      have hoffer : s'.offer? name i = s.offer? name i := by
        rw [offer?, hget, hrole, offer?, hattrs hget]
      rw [hoffer, findSome?_offer?_congr (fun j hj => habove j (hin j hj))] at hv
      exact hv
    cases (hattrs hget).symm.trans hbefore

namespace LeavesOthers
open Work
variable {made : Value → List Value} {F K P S T U : Set Nat} {m m' m'' : Machine} {p : Nat}

theorem refl (h : Isolated made F K S m) : LeavesOthers made F K P S m S m where
  isolated := h
  grows := subset_rfl
  lasts c _ := .refl _ c
  core p _ := .refl _ p
  same v _ := .refl _ v
  listed := id

theorem trans (h : Isolated made F K S m) (h₁ : LeavesOthers made F K P S m T m') (h₂ : LeavesOthers made F K P T m' U m'') :
    LeavesOthers made F K P S m U m'' where
  isolated := h₂.isolated
  grows := h₁.grows.trans h₂.grows
  lasts c hc := (h₁.lasts c hc).trans (h₂.lasts c hc)
  core p hp := (h₁.core p hp).trans (h₂.core p (h₁.grows hp))
  same v hv := by
    have hlater : m'.store.Tracked made K (S \ P) v := (Store.tracked_congr h.closed h₁.lasts h₁.same).mpr hv
    exact (h₁.same v hv).trans (h₂.same v (hlater.mono (Set.sdiff_subset_sdiff_left h₁.grows)))
  listed := h₂.listed ∘ h₁.listed

section
variable {V : Value → Prop} (h : Isolated made F K S m) (hretains : m.Retains V m')
include h hretains

/-- What retains all that is tracked leaves all instances as they are. -/
theorem of_retains (hV : ∀ v, V v → ¬ m.store.Tracked made K S v) (htypes : ∀ c ∈ K, ¬ V (.type c)) :
    LeavesOthers made F K P S m S m' := by
  have hsame (v : Value) (hv : m.store.Tracked made K S v) : m.store.SameAs m'.store v :=
    hretains.same v (h.stands_of_tracked hv) fun hv' => hV v hv' hv
  have htype (c : Nat) (hc : c ∈ K) : m'.store.type c = m.store.type c :=
    hretains.same (.type c) (h.standing c hc) (htypes c hc)
  refine ⟨h.of_retains hretains (fun c hc => .inl (htype c hc)) hV, subset_rfl, fun c hc => .inl (htype c hc), fun p hp => ?_,
    fun v hv => hsame v (hv.mono Set.sdiff_subset), fun hlisted c hc => ?_⟩
  · exact Store.sameCore_of_core fun v hv => hsame v (.inr ⟨p, hp, .core hv⟩)
  · rw [Store.noted, htype c (h.families hc)]
    exact hlisted c hc

/-- What is done through one instance, which stays what it is made of, leaves the others. -/
theorem of_isolated (hp : p ∈ S) (hP : p ∈ P) (hV : ∀ v, V v → m.store.Own made p v) (hcore : m.store.SameCore m'.store p)
    (hisolated : Isolated made F K S m') : LeavesOthers made F K P S m S m' := by
  have hsame (v : Value) (hv : m.store.Tracked made K (S \ {p}) v) : m.store.SameAs m'.store v :=
    hretains.same v (h.stands_of_tracked (hv.mono Set.sdiff_subset)) fun hv' => h.not_tracked hp (hV v hv') hv
  have htype (c : Nat) (hc : c ∈ K) : m'.store.type c = m.store.type c :=
    hretains.same (.type c) (h.standing c hc) fun hv => (h.equipped p hp).not_own_type hc (hV _ hv)
  refine ⟨hisolated, subset_rfl, fun c hc => .inl (htype c hc), fun q hq => ?_, fun v hv => hsame v (hv.mono ?_),
    fun hlisted c hc => ?_⟩
  · by_cases hqp : q = p
    · exact hqp ▸ hcore
    · exact Store.sameCore_of_core fun v hv => hsame v (.inr ⟨q, ⟨hq, hqp⟩, .core hv⟩)
  · exact fun q hq => ⟨hq.1, fun hqp => hq.2 (hqp ▸ hP)⟩
  · rw [Store.noted, htype c (h.families hc)]
    exact hlisted c hc

/-- What gives one instance data and steps that were nobody's, and changes nothing else of what it is made of, leaves the
others. -/
theorem of_renewed (hp : p ∈ S) (hP : p ∈ P) (hV : ∀ v, V v → m.store.Own made p v) (hcore : m.store.SameCore m'.store p)
    (hparts : ∀ {i}, m.store.IsPart p i → ¬ V (.type i)) (hdata : m.store.Obtains made K S p m'.store)
    (hsteps : ∀ k, m'.store.Registered p k → m.store.Registered p k ∨
      m'.store.Stands (.step k) ∧ ¬ m.store.Stands (.step k)) : LeavesOthers made F K P S m S m' := by
  have hK (c : Nat) (hc : c ∈ K) : m.store.Lasts m'.store c :=
    .inl (hretains.same (.type c) (h.standing c hc) fun hv => (h.equipped p hp).not_own_type hc (hV _ hv))
  refine of_isolated h hretains hp hP hV hcore ?_
  exact h.renewed hretains hK hp (fun v hv => h.not_tracked hp (hV v hv)) hcore hparts hdata hsteps

end

section
variable {s : Store} {v : Value} {i : Nat} {name : String} (h : Isolated made F K S m) (hp : p ∈ S) (hP : p ∈ P)
include h hp hP

/-- To change one of an instance's own objects that it is not made of leaves the others. -/
theorem of_alters (hown : m.store.Own made p v) (hoff : ¬ m.store.Core p v) (halters : m.store.Alters v s)
    (hfits : ∀ i, v = .set i → (s.set i).Fits) (hbrings : m.store.Obtains made K S p s) :
    LeavesOthers made F K P S m S { m with store := s } := by
  have hretains : m.Retains (· = v) { m with store := s } := .of_alters halters rfl fun hs => hs.of_alters halters hfits
  have hsame (w : Value) (hw : m.store.Core p w) : m.store.SameAs s w :=
    hretains.same w ((h.equipped p hp).stands w (.core hw)) fun he => hoff (he ▸ hw)
  have hcore : m.store.SameCore s p := Store.sameCore_of_core hsame
  refine of_renewed h hretains hp hP (fun w hw => hw ▸ hown) hcore (fun hi he => hoff (he ▸ .type hi)) hbrings ?_
  exact fun k hk => .inl ((hcore.registered fun f hf => hsame _ hf).mp hk)

/-- A container that a class of an instance offers can be changed: it is the instance's own, and the others keep theirs. -/
theorem of_table (hi : m.store.IsPart p i) (hname : Store.isReserved name = false)
    (hv : m.store.typeAttr? i name = some v) (hcontainer : v.isContainer = true) (halters : m.store.Alters v s)
    (hfits : ∀ i, v = .set i → (s.set i).Fits) : LeavesOthers made F K P S m S { m with store := s } := by
  have hequipped := h.equipped p hp
  have htabled : m.store.Tabled i v := ⟨name, hname, hequipped.covered hi hname hv hcontainer, hcontainer⟩
  have hoff : ¬ m.store.Core p v := hequipped.tables hi htabled
  refine of_alters h hp hP (.table hi htabled) hoff halters hfits fun w hw => .inl ?_
  have hsame {w : Value} (hne : w ≠ v) : m.store.SameAt s w := halters.sameAt hne
  have hself : s.processor p = m.store.processor p :=
    Option.some.inj (hsame (w := .processor p) fun he => hoff (he ▸ .self))
  have hfields : s.dict (m.store.processor p).fields = m.store.dict (m.store.processor p).fields :=
    hsame (w := .dict _) fun he => hoff (he ▸ .fields)
  refine (Store.data_congr hself (Store.field?_congr _ hfields _) fun x hx => ?_).mp hw
  obtain ⟨_, _, _, hmutable⟩ := id hx
  rw [Store.sameAs_of_isMutable hmutable]
  exact hsame fun he => hequipped.parted hi htabled (he ▸ hx)

/-- What is within the data of an instance can be changed, at any depth, to hold what was nobody's: the others keep their
data. -/
theorem of_data (hv : m.store.Data made p v) (halters : m.store.Alters v s) (hfits : ∀ i, v = .set i → (s.set i).Fits)
    (hbrings : m.store.Obtains made K S p s) : LeavesOthers made F K P S m S { m with store := s } :=
  of_alters h hp hP (.data hv) ((h.equipped p hp).data hv) halters hfits hbrings

/-- An attribute of a class of an instance can be set, to a container only if that was nobody else's: the others keep their
classes. -/
theorem of_attribute (hi : m.store.IsPart p i) (hstands : m.store.Stands v)
    (hvalue : v.isContainer = true → (∃ j, m.store.IsPart p j ∧ m.store.Tabled j v) ∨ ¬ m.store.Tracked made K S v)
    (σ : Service) : LeavesOthers made F K P S m S (setAttribute (.type i) name v σ m).2 := by
  have hequipped := h.equipped p hp
  have hrun : setAttribute (.type i) name v σ m =
      perhaps (fun s => do return ((), ← s.setAttr (.type i) name v)) σ m := rfl
  rw [hrun, perhaps]
  cases hset : m.store.setTypeAttr i name v with
  | error failure =>
    have hsetAttr : m.store.setAttr (.type i) name v = .error failure := hset
    rw [hsetAttr]
    exact .of_retains h (retains_fail (V := fun _ => False) failure m σ) (fun _ => False.elim) fun _ _ => False.elim
  | ok s =>
    have hsetAttr : m.store.setAttr (.type i) name v = .ok s := hset
    rw [hsetAttr]
    have hholds : m.store.Holds v := by cases v <;> first | exact hstands | trivial
    have hhoused : m.store.Housed → s.Housed := fun hs => hs.setTypeAttr hholds hset
    obtain ⟨g, rfl, hancestry, hrole, hattrs⟩ := Store.setTypeAttr_eq hset
    let m' : Machine := { m with store := m.store.updateType i g }
    have hretains : m.Retains (· = .type i) m' := .updateType m i g rfl hhoused
    have hlt : i < m.store.types.size := hequipped.stands _ (.core (.type hi))
    have htype : (m.store.updateType i g).type i = g (m.store.type i) := by
      rw [Store.type_updateType, if_pos ⟨rfl, hlt⟩]
    have hcore : m.store.SameCore (m.store.updateType i g) p := ⟨rfl, fun _ _ => rfl, fun _ _ => rfl⟩
    have hV (w : Value) (hw : w = .type i) : m.store.Own made p w := hw ▸ .core (.type hi)
    have hK (c : Nat) (hc : c ∈ K) : m.store.Lasts (m.store.updateType i g) c :=
      .inl (hretains.same _ (h.standing c hc) fun he => hequipped.not_own_type hc (hV _ he))
    have hsame (w : Value) (hw : m.store.Own made p w) (hne : w ≠ .type i) : m.store.SameAs (m.store.updateType i g) w :=
      hretains.same w (hequipped.stands w hw) hne
    -- What the class defines now it defined before, or it was nobody else's.
    have htabled (w : Value) (hw : (m.store.updateType i g).Tabled i w) : (∃ j, m.store.IsPart p j ∧ m.store.Tabled j w) ∨
        m.store.Stands w ∧ ¬ m.store.Tracked made K S w := by
      obtain ⟨key, hkey, hget, hcontainer⟩ := hw
      rw [htype] at hget
      obtain heq | ⟨-, heq⟩ := hattrs (m.store.type i) key
      · exact .inl ⟨i, hi, key, hkey, heq ▸ hget, hcontainer⟩
      · cases heq.symm.trans hget
        exact (hvalue hcontainer).imp_right fun hnew => ⟨hstands, hnew⟩
    change LeavesOthers made F K P S m S m'
    refine of_isolated h hretains hp hP hV hcore ?_
    refine h.through hretains hK hp (fun w hw => h.not_tracked hp (hV w hw)) ?_ fun w hw => ?_
    · refine hequipped.retabled hK hi (fun w hw => hretains.stands w (hequipped.stands w hw)) hcore hsame ?_ ?_ ?_
      · rw [htype, hancestry]
      · intro w hw
        refine (htabled w hw).imp_right fun hnew => ⟨hretains.stands w hnew.1, fun hown => hnew.2 (.inr ⟨p, hp, hown⟩)⟩
      · intro key w hkey hw hcontainer
        refine hequipped.covered_of_attrs hi (fun c hc => ?_) ?_ ?_ (fun hnone => ?_) hkey hw hcontainer
        · exact hretains.same _ (h.standing c hc) fun he => hequipped.not_own_type hc (hV _ he)
        · rw [htype, hancestry]
        · rw [htype, hrole]
        · rw [htype] at hnone
          obtain heq | ⟨-, heq⟩ := hattrs (m.store.type i) key
          · exact heq.symm.trans hnone
          · cases heq.symm.trans hnone
    · refine (Store.own_of_retabled hcore hsame htabled hw).elim (h.not_tracked hp) fun hnew htracked => ?_
      exact hnew.2 (htracked.mono Set.sdiff_subset)

omit hP in
theorem gives_setData (v : Value) : (setAttribute (.processor p) "data" v).Gives m () { m with
    store := m.store.updateDict (m.store.processor p).fields fun t => t.set (.str "data") v } := by
  have hregular := h.regular _ (h.equipped p hp).family
  refine gives_setField (by decide +kernel) hregular.stores (fun w hw => ?_) hregular.dict v
  obtain ⟨d, hd, hmute, -⟩ := hregular.data
  cases hd.symm.trans hw
  exact hmute

/-- An instance can be given other data that were nobody's. -/
theorem of_setData (σ : Service) (hobtains : m.store.Obtains made K S p (setAttribute (.processor p) "data" v σ m).2.store) :
    LeavesOthers made F K P S m S (setAttribute (.processor p) "data" v σ m).2 := by
  rw [gives_setData h hp v] at hobtains ⊢
  have hlt : (m.store.processor p).fields < m.store.dicts.size := (h.equipped p hp).stands _ (.core .fields)
  have hcore : m.store.SameCore
      (m.store.updateDict (m.store.processor p).fields fun t => t.set (.str "data") v) p := by
    refine ⟨rfl, fun name hname => ?_, fun _ _ => rfl⟩
    rw [Store.field?_set _ hlt, if_neg (Ne.symm hname)]
  refine of_renewed h (.updateDict m _ _ rfl) hp hP (fun w hw => hw ▸ .core .fields) hcore nofun hobtains ?_
  exact fun k hk => .inl ((hcore.registered fun _ _ => rfl).mp hk)

end

/-- A family that has noted nothing can note one of the instances: all stay as they are. -/
theorem of_note {c : Nat} (h : Isolated made F K S m) (hc : c ∈ F) (hp : p ∈ S) (hnoted : m.store.noted c = .null) :
    LeavesOthers made F K P S m S { m with store := m.store.note c (.processor p) } := by
  let m' : Machine := { m with store := m.store.note c (.processor p) }
  have hcK : c ∈ K := h.families hc
  have hhoused (hs : m.store.Housed) : (m.store.note c (.processor p)).Housed := by
    refine hs.updateType c (fun _ => rfl) fun {t name v} hv => ?_
    rw [Table.get?_set] at hv
    split at hv
    · cases hv
      exact .inr trivial
    · exact .inl hv
  have hretains : m.Retains (· = .type c) m' := .updateType m c _ rfl hhoused
  have hV (v : Value) (hv : v = .type c) : ¬ m.store.Tracked made K S v := hv ▸ h.not_tracked_type hcK
  have hsame (v : Value) (hv : m.store.Tracked made K S v) : m.store.SameAs m'.store v :=
    hretains.same v (h.stands_of_tracked hv) fun he => hV v he hv
  have htype : m'.store.type c = (m.store.type c).noting (.processor p) :=
    (Store.type_updateType ..).trans (if_pos ⟨rfl, h.standing c hcK⟩)
  have hother {d : Nat} (hd : d ≠ c) : m'.store.type d = m.store.type d :=
    (Store.type_updateType ..).trans (if_neg fun he => hd he.1.symm)
  -- The class of the family is not the same, but all that has changed of it is what it notes.
  have hlasts (d : Nat) (hd : d ∈ K) : m.store.Lasts m'.store d := by
    by_cases hdc : d = c
    · subst hdc
      exact .inr ⟨(h.regular d hc).family, hnoted, p, htype⟩
    · exact .inl (hother hdc)
  refine ⟨h.of_retains hretains hlasts hV, subset_rfl, hlasts, fun q hq => ?_,
    fun v hv => hsame v (hv.mono Set.sdiff_subset), fun hlisted d hd hnull => ?_⟩
  · exact Store.sameCore_of_core fun v hv => hsame v (.inr ⟨q, hq, .core hv⟩)
  · by_cases hdc : d = c
    · subst hdc
      refine ⟨p, hp, ?_⟩
      rw [Store.noted_note (h.standing d hcK), if_pos rfl]
    · have hsame : m'.store.noted d = m.store.noted d := by rw [Store.noted, hother hdc, Store.noted]
      rw [hsame] at hnull ⊢
      exact hlisted d hd hnull

end LeavesOthers
end Treeworks
