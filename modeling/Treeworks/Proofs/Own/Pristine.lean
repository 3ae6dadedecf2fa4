import Treeworks.Proofs.Own.Making

/-! What a new instance is: it is as its family prepares it, nothing of its own was there before, and it begins with an empty
registry, with classes that render what the classes of its family have, and with a copy of the data of its family. -/
namespace Treeworks

namespace Store

/-- Whether an instance is one that a family has just made, by what the family was in some store: nothing is registered, its
classes were derived from those of the family and have copies of their containers, and its data are a copy. What a family
notes as its default is left aside. -/
structure Pristine (made : Value → List Value) (s₀ : Store) (c : Nat) (s : Store) (p : Nat) : Prop where
  type : (s.processor p).type = c
  registry : ∃ w a f, s.field? (s.processor p) "ware" = some (.ware w) ∧ s.Equips w a f ∧ s.list a = [] ∧ s.list f = []
  parts : ∀ part ∈ ["Parser", "Compiler"], ∃ v, s.field? (s.processor p) part = some v ∧
    (s₀.typeAttr? c part = some .null ∧ v = .null ∨
      ∃ i e, s₀.typeAttr? c part = some (.type i) ∧ v = .type e ∧ (s.type e).ancestry = e :: (s₀.type i).ancestry ∧
        ∀ name, isReserved name = false → name ≠ "_default" → s₀.Renders i s e name)
  data : s₀.typeAttr? c "data" = some .null ∧ s.field? (s.processor p) "data" = none ∨
    ∃ d v, s₀.typeAttr? c "data" = some d ∧ s.field? (s.processor p) "data" = some v ∧ s₀.Alike made d s v

/-- What a family has just made was made by what the family was before, if that has lasted. -/
theorem Pristine.since {made : Value → List Value} {F K S : Set Nat} {m : Machine} {s s' : Store} {c p : Nat}
    (h : s.Pristine made c s' p) (hm : Isolated made F K S m) (hc : c ∈ F) (hlasts : ∀ c ∈ K, m.store.Lasts s c)
    (hsame : ∀ v, m.store.Common made K v → m.store.SameAs s v) : m.store.Pristine made c s' p := by
  have hcK := hm.families hc
  have hattr {name : String} (hname : name ≠ "_default") : s.typeAttr? c name = m.store.typeAttr? c name :=
    typeAttr?_of_lasts hm.closed hlasts hcK hname
  refine ⟨h.type, h.registry, fun part hpart => ?_, ?_⟩
  · have hne : part ≠ "_default" := by
      rintro rfl
      exact absurd hpart (by decide)
    obtain ⟨v, hv, ⟨hnone, hnull⟩ | ⟨i, e, hi, he, hancestry, hrenders⟩⟩ := h.parts part hpart
    · exact ⟨v, hv, .inl ⟨hattr hne ▸ hnone, hnull⟩⟩
    · rw [hattr hne] at hi
      have hiK : i ∈ K := by
        obtain ⟨u, hu, rfl | ⟨j, hj, rfl, -⟩⟩ := (hm.regular c hc).part part hpart
        · cases hu.symm.trans hi
        · cases hu.symm.trans hi
          exact hj
      refine ⟨v, hv, .inr ⟨i, e, hi, he, (hlasts i hiK).ancestry ▸ hancestry, fun name hname hdefault => ?_⟩⟩
      refine (hrenders name hname hdefault).since (member?_of_lasts hm.closed hlasts hiK hdefault) fun v hv hcontainer => ?_
      rw [member?_of_lasts hm.closed hlasts hiK hdefault] at hv
      exact hsame v (common_of_member? (hm.closed i hiK) hname hv hcontainer)
  · have hdata : s.typeAttr? c "data" = m.store.typeAttr? c "data" := hattr (by decide)
    obtain ⟨hnone, hown⟩ | ⟨d, v, hd, hv, halike⟩ := h.data
    · exact .inl ⟨hdata ▸ hnone, hown⟩
    · rw [hdata] at hd
      have hwithin (u : Value) (hu : m.store.Within made d u) : m.store.SameAt s u := by
        cases hmutable : u.isMutable with
        | true => exact (hsame u (.data hcK (hm.regular c hc).family hd hu hmutable)).sameAt
        | false => exact sameAt_of_not_isMutable hmutable
      refine .inr ⟨d, v, hd, hv, halike.congr (fun u hu => (hwithin u ?_).symm) fun u _ => .refl _ u⟩
      exact (within_congr hwithin).mp hu

end Store

namespace Work
open Machine
variable {made : Value → List Value} {F K S : Set Nat} {m m₁ m₂ m' : Machine} {c w a f : Nat} {v₁ v₂ v : Value}
  {t : Table Value}

namespace Finished

section
variable (h : Finished made K m c w a f v₁ v₂ m₁ m₂ t m')
include h

theorem field? (name : String) :
    m'.store.field? (m'.store.processor m.store.processors.size) name = t.get? name := by
  rw [h.prepares.self, h.prepares.shows]

theorem outfits : Outfits m w a f m' := (h.equipping.outfits.of_retains h.equipping.retains).of_retains h.retains

/-- What was there when the instance had got its ware was there when it had got its classes. -/
theorem stood (hv : m₁.store.Stands v) : m₂.store.Stands v := h.equipping.retains.stands v hv

theorem stands_fields : m₁.store.Stands (.dict m.store.dicts.size) := h.equipping.prepares.fields

theorem offshoot {i : Nat} (hi : m'.store.IsPart m.store.processors.size i) :
    ∃ base ∈ K, m₁.store.Offshoot base m₂.store i := by
  have hof {name : String} {u : Value} (hu : m₁.store.Parted K c name m₂.store u) (he : u = .type i) :
      ∃ base ∈ K, m₁.store.Offshoot base m₂.store i := by
    obtain ⟨-, rfl⟩ | ⟨base, hbase, e, -, rfl, hoffshoot⟩ := hu
    · cases he
    · cases he
      exact ⟨base, hbase, hoffshoot⟩
  obtain hi | hi := hi
  · rw [h.field?, h.parser] at hi
    exact hof h.equipping.parser (Option.some.inj hi)
  · rw [h.field?, h.compiler] at hi
    exact hof h.equipping.compiler (Option.some.inj hi)

/-- What the instance is made of was there when it had got its classes, and before that if it is none of these. -/
theorem core_stands (hv : m'.store.Core m.store.processors.size v) :
    m₂.store.Stands v ∧ ((∀ i, v ≠ .type i) → m₁.store.Stands v) ∧ m'.store.Stands v ∧ ¬ m.store.Stands v := by
  have hware {w' : Nat} (hw : m'.store.field? (m'.store.processor m.store.processors.size) "ware" = some (.ware w')) :
      w' = w := by
    rw [h.field?, h.ware] at hw
    cases hw
    rfl
  have hfirst (hv : m₁.store.Stands v) (hnew : ¬ m.store.Stands v) :
      m₂.store.Stands v ∧ ((∀ i, v ≠ .type i) → m₁.store.Stands v) ∧ m'.store.Stands v ∧ ¬ m.store.Stands v :=
    ⟨h.stood hv, fun _ => hv, h.retains.stands v (h.stood hv), hnew⟩
  obtain ⟨hwstands, hastands, hfstands⟩ := h.equipping.outfits.stands
  obtain ⟨hwnew, hanew, hfnew⟩ := h.equipping.outfits.new
  cases hv with
  | self => exact hfirst h.equipping.prepares.stands (Nat.lt_irrefl _)
  | fields =>
    rw [h.prepares.self] at hfirst ⊢
    exact hfirst h.stands_fields (Nat.lt_irrefl _)
  | ware hw =>
    cases hware hw
    exact hfirst hwstands hwnew
  | steps hw =>
    cases hware hw
    have hsteps : (m'.store.runner.ware w).steps = .list f := congrArg Ware.steps h.outfits.ware
    rw [hsteps] at hfirst ⊢
    exact hfirst hfstands hfnew
  | attachers hw hv =>
    cases hware hw
    cases (congrArg Ware.attachers h.outfits.ware).symm.trans hv
    exact hfirst hastands hanew
  | type hi =>
    obtain ⟨base, hbase, hoffshoot⟩ := h.offshoot hi
    refine ⟨hoffshoot.stands, fun hne => absurd rfl (hne _), h.retains.stands _ hoffshoot.stands, fun hold => ?_⟩
    exact hoffshoot.new (h.equipping.prepares.retains.stands _ hold)

/-- What the classes of the instance define was there when it had got them, and not before. -/
theorem tabled_stands {i : Nat} (hi : m'.store.IsPart m.store.processors.size i) (hv : m'.store.Tabled i v) :
    m₂.store.Stands v ∧ ¬ m₁.store.Stands v := by
  obtain ⟨base, -, hoffshoot⟩ := h.offshoot hi
  have htype : m'.store.type i = m₂.store.type i := h.retains.same (.type i) hoffshoot.stands nofun
  exact hoffshoot.tables v ((Store.Lasts.tabled (.inl htype)).mp hv)

/-- The data of the instance were not there when it had got its classes. -/
theorem data_stands (hv : m'.store.Data made m.store.processors.size v) :
    m'.store.Stands v ∧ ¬ m₂.store.Stands v := by
  obtain ⟨d, hd, hin, hmutable⟩ := hv
  rw [h.field?] at hd
  obtain ⟨-, hnone⟩ | ⟨_, u, -, hu, -, hnew⟩ := h.data
  · cases hnone.symm.trans hd
  · cases hu.symm.trans hd
    exact hnew v hin hmutable

theorem not_registered {k : Nat} : ¬ m'.store.Registered m.store.processors.size k := by
  rintro ⟨w', f', hw, hf, hk⟩
  rw [h.field?, h.ware] at hw
  cases hw
  cases (congrArg Ware.steps h.outfits.ware).symm.trans hf
  rw [h.outfits.steps] at hk
  cases hk

/-- All that is the instance's own is there, and was not there before. -/
theorem own_stands (hv : m'.store.Own made m.store.processors.size v) : m'.store.Stands v ∧ ¬ m.store.Stands v := by
  have hold {u : Value} (hu : m.store.Stands u) : m₁.store.Stands u := h.equipping.prepares.retains.stands u hu
  cases hv with
  | core hv => exact (h.core_stands hv).2.2
  | step hk => exact absurd hk h.not_registered
  | table hi hv =>
    obtain ⟨hnow, hnew⟩ := h.tabled_stands hi hv
    exact ⟨h.retains.stands v hnow, fun hv => hnew (hold hv)⟩
  | data hv =>
    obtain ⟨hnow, hnew⟩ := h.data_stands hv
    exact ⟨hnow, fun hv => hnew (h.stood (hold hv))⟩

theorem equips : m'.store.Equips w a f where
  attachers := congrArg Ware.attachers h.outfits.ware
  steps := congrArg Ware.steps h.outfits.ware
  ne := h.outfits.ne
  attachers_lt := h.outfits.stands.2.1
  steps_lt := h.outfits.stands.2.2
  own := congrArg (fun x : Ware => x.attrs.get? "use") h.outfits.ware

/-- The instance is as its family prepares instances. -/
theorem equipped (hm : Isolated made F K S m) (hc : c ∈ F) : m'.store.Equipped made F K m.store.processors.size := by
  have hm₁ := h.equipping.prepares.isolated hm
  -- It is made in three stages: its ware with two lists, its classes, its data. What comes at one stage was not there at those
  -- before, so that no two have anything in common.
  have htype {i : Nat} (hi : m'.store.IsPart m.store.processors.size i) : m'.store.type i = m₂.store.type i := by
    obtain ⟨base, -, hoffshoot⟩ := h.offshoot hi
    exact h.retains.same (.type i) hoffshoot.stands nofun
  refine ⟨?_, ?_, ⟨w, a, f, ?_, h.equips, ?_, ?_⟩, fun v hv => (h.own_stands hv).1, ?_, ?_, ?_, ?_, ?_, ?_⟩
  · rw [h.prepares.self]
    exact hc
  · rw [h.field?, h.unnamed]
  · rw [h.field?, h.ware]
  · exact congrArg Ware.context h.outfits.ware
  · exact congrArg (fun x : Ware => x.attrs.get? "attach") h.outfits.ware
  · intro i v hi hv hcore
    have hne (j : Nat) : v ≠ .type j := by
      rintro rfl
      obtain ⟨_, _, _, hcontainer⟩ := hv
      cases hcontainer
    exact (h.tabled_stands hi hv).2 ((h.core_stands hcore).2.1 hne)
  · exact fun hv hcore => (h.data_stands hv).2 (h.core_stands hcore).1
  · exact fun hi hv hdata => (h.data_stands hdata).2 (h.tabled_stands hi hv).1
  · intro i hi hiK
    obtain ⟨base, -, hoffshoot⟩ := h.offshoot hi
    exact hoffshoot.new (hm₁.standing i hiK)
  · intro i hi
    obtain ⟨base, hbase, hoffshoot⟩ := h.offshoot hi
    exact ⟨_, by rw [htype hi, hoffshoot.ancestry], hm₁.closed base hbase⟩
  · intro i name v hi hname hv hcontainer
    obtain ⟨base, hbase, hoffshoot⟩ := h.offshoot hi
    have hnow : m₁.store.Offshoot base m'.store i := by
      refine hoffshoot.of_retains h.retains (fun u hu _ => hu ▸ h.stands_fields) (fun _ => nofun) fun j hj => ?_
      exact h.stood (hm₁.standing j (hm₁.closed base hbase j hj))
    obtain ⟨_, u, -, -, hu, -⟩ | ⟨hnone, -, hleads⟩ := hnow.renders name hname
    · rw [Store.typeAttr?_eq_some, Store.member?_eq, hnow.ancestry, List.findSome?_cons, Store.offer?, hu] at hv
      cases hv
      exact hu
    · rw [Store.typeAttr?_eq_some, hleads] at hv
      cases hcontainer.symm.trans (hnone v hv)

/-- The instance is one that its family has just made. -/
theorem pristine (hm : Isolated made F K S m) (hc : c ∈ F) :
    m.store.Pristine made c m'.store m.store.processors.size where
  type := by rw [h.prepares.self]
  registry := ⟨w, a, f, by rw [h.field?, h.ware], h.equips, h.outfits.attachers, h.outfits.steps⟩
  parts part hpart := by
    have hm₁ := h.equipping.prepares.isolated hm
    have hparted {u : Value} (hu : m₁.store.Parted K c part m₂.store u) : m.store.Parted K c part m'.store u := by
      refine hm.parted h.equipping.prepares.retains (fun v hv htracked => ?_) (fun _ _ => nofun) hc
        (hu.of_retains h.retains (fun v hv _ => hv ▸ h.stands_fields) (fun _ => nofun) fun i hi j hj => ?_)
      · subst hv
        exact Nat.lt_irrefl _ (show m.store.Stands (.dict m.store.dicts.size) from hm.stands_of_tracked htracked)
      · exact h.stood (hm₁.standing j (hm₁.closed i hi j hj))
    have hrenders {u : Value} (hu : m.store.Parted K c part m'.store u) :
        m.store.typeAttr? c part = some .null ∧ u = .null ∨
          ∃ i e, m.store.typeAttr? c part = some (.type i) ∧ u = .type e ∧
            (m'.store.type e).ancestry = e :: (m.store.type i).ancestry ∧
            ∀ name, Store.isReserved name = false → name ≠ "_default" → m.store.Renders i m'.store e name := by
      obtain hu | ⟨i, -, e, hi, he, hoffshoot⟩ := hu
      · exact .inl hu
      · exact .inr ⟨i, e, hi, he, hoffshoot.ancestry, fun name hname _ => hoffshoot.renders name hname⟩
    simp only [List.mem_cons, List.not_mem_nil, or_false] at hpart
    obtain rfl | rfl := hpart
    · exact ⟨v₁, by rw [h.field?, h.parser], hrenders (hparted h.equipping.parser)⟩
    · exact ⟨v₂, by rw [h.field?, h.compiler], hrenders (hparted h.equipping.compiler)⟩
  data := by
    obtain ⟨hnone, hown⟩ | ⟨d, v, hd, hv, halike, -⟩ := h.data
    · exact .inl ⟨hnone, by rw [h.field?, hown]⟩
    · exact .inr ⟨d, v, hd, by rw [h.field?, hv], halike⟩

end

end Finished

end Work

namespace LeavesOthers
open Work Machine
variable {made : Value → List Value} {F K P S : Set Nat} {m m' : Machine} {c p : Nat} {t : Table Value} {v : Value}
  {args : List Value} {keywords : Table Value}

/-- One more instance is isolated if all that is its own was not there before. -/
theorem inserted (hm : Isolated made F K S m) (h : LeavesOthers made F K P S m S m') (hsame : ∀ v, m.store.Tracked made K S v →
    m.store.SameAs m'.store v) (hequipped : m'.store.Equipped made F K p)
    (hnew : ∀ v, m'.store.Own made p v → ¬ m.store.Stands v) : LeavesOthers made F K P S m (insert p S) m' where
  isolated := h.isolated.insert hequipped fun v hv htracked =>
    hnew v hv (hm.stands_of_tracked ((Store.tracked_congr hm.closed h.lasts hsame).mp htracked))
  grows := Set.subset_insert p S
  lasts := h.lasts
  core := h.core
  same := h.same
  listed hlisted c hc hnull := by
    obtain ⟨q, hq, hnoted⟩ := h.listed hlisted c hc hnull
    exact ⟨q, .inr hq, hnoted⟩

/-- To prepare an instance leaves all that was there before. -/
theorem of_prepares (hm : Isolated made F K S m) (h : m.Prepares c t m') : LeavesOthers made F K P S m S m' := by
  refine of_retains hm h.retains (fun v hv htracked => ?_) fun _ _ => nofun
  subst hv
  exact Nat.lt_irrefl _ (show m.store.Stands (.dict m.store.dicts.size) from hm.stands_of_tracked htracked)

/-- A family that is called for anything but one of its instances makes one that is isolated from all others, and leaves
them as they are; or nothing comes of it since its data cannot be copied. -/
theorem of_instantiate (hm : Isolated made F K S m) (hc : c ∈ F) (hpasses : Passes v args keywords)
    (hv : isInstance m.store v c = false) (hstands : m.store.Stands v) (σ : Service) (hcopy : Detaches made m c σ) :
    (∃ p m', instantiate c args keywords σ m = (.done (.processor p), m') ∧
      LeavesOthers made F K P S m (insert p S) m' ∧ (∀ i ∈ K, m'.store.type i = m.store.type i) ∧
      m.store.Pristine made c m'.store p ∧ p ∉ S) ∨
    ∃ out m', instantiate c args keywords σ m = (out, m') ∧ (∀ u, out ≠ .done u) ∧ LeavesOthers made F K P S m S m' ∧
      (∀ i ∈ K, m'.store.type i = m.store.type i) ∧
      ∃ d, m.store.typeAttr? c "data" = some d ∧ ∀ u, (deepCopy d σ (equipped m c)).1 ≠ .done u := by
  have htypes {t : Table Value} {m' : Machine} (h : m.Prepares c t m') (i : Nat) (hi : i ∈ K) :
      m'.store.type i = m.store.type i := h.sameAs (hm.standing i hi)
  obtain ⟨w, a, f, v₁, v₂, m₁, m₂, t, m', hrun, hfinished⟩ | ⟨t, out, m', hrun, hout, hprepares, hfails⟩ :=
    instantiate_ends hm hc hpasses hv hstands σ hcopy
  · left
    refine ⟨_, m', hrun, ?_, htypes hfinished.prepares, hfinished.pristine hm hc, fun hp => ?_⟩
    · exact (of_prepares hm hfinished.prepares).inserted hm
        (fun v hv => hfinished.prepares.sameAs (hm.stands_of_tracked hv)) (hfinished.equipped hm hc)
        fun v hv => (hfinished.own_stands hv).2
    · exact Nat.lt_irrefl _ ((hm.equipped _ hp).stands _ (.core .self))
  · exact .inr ⟨out, m', hrun, hout, of_prepares hm hprepares, htypes hprepares, hfails⟩

end LeavesOthers
end Treeworks
