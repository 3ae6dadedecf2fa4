import Treeworks.Proofs.Own.Parts
import Treeworks.Proofs.Report.Diagnostics

/-! What stays. Whatever is done beside the objects that are there leaves them there and the same: something new is made,
an entry is logged, an error is raised. What changes one of them leaves all others the same. -/
namespace Treeworks

namespace Store

/-- Whether all objects are as they were, with perhaps more of them. -/
structure Enlarges (s s' : Store) : Prop extends s.Extends s' where
  files : Grows s.files s'.files
  workers : Grows s.workers s'.workers
  processors : Grows s.processors s'.processors
  wares : Grows s.runner.wares s'.runner.wares
  steps : Grows s.runner.steps s'.runner.steps

variable {s s' s'' : Store} {v : Value}

/-- An error is made of a tuple. -/
theorem addFault_eq (s : Store) (detail : FaultDetail) (args : List Value) (cause : Value) : ∃ tuples faults,
    (s.addFault detail args cause).2 = { s with tuples := tuples, faults := faults } := by
  unfold addFault addTuple
  cases args with
  | nil => exact ⟨_, _, rfl⟩
  | cons v args => exact ⟨_, _, rfl⟩

namespace Enlarges

theorem refl (s : Store) : s.Enlarges s := ⟨.refl s, .refl _, .refl _, .refl _, .refl _, .refl _⟩

theorem stands (h : s.Enlarges s') (hv : s.Stands v) : s'.Stands v := by
  cases v with
  | dict i => exact Nat.lt_of_lt_of_le hv h.dicts.size
  | list i => exact Nat.lt_of_lt_of_le hv h.lists.size
  | set i => exact Nat.lt_of_lt_of_le hv h.sets.size
  | file i => exact Nat.lt_of_lt_of_le hv h.files.size
  | worker i => exact Nat.lt_of_lt_of_le hv h.workers.size
  | processor i => exact Nat.lt_of_lt_of_le hv h.processors.size
  | ware i => exact Nat.lt_of_lt_of_le hv h.wares.size
  | step i => exact Nat.lt_of_lt_of_le hv h.steps.size
  | type i => exact Nat.lt_of_lt_of_le hv h.types.size
  | _ => trivial

theorem sameAs (h : s.Enlarges s') (hv : s.Stands v) : s.SameAs s' v := by
  cases v with
  | dict i => exact h.dicts.same i hv _
  | list i => exact congrArg Array.toList (h.lists.same i hv _)
  | set i => exact h.sets.same i hv _
  | file i => exact h.files.same i hv _
  | worker i => exact congrArg some (h.workers.same i hv _)
  | processor i => exact congrArg some (h.processors.same i hv _)
  | ware i => exact congrArg Ware.rested (h.wares.same i hv _)
  | step i => exact h.steps.same i hv _
  | type i => exact h.types.same i hv _
  | _ => rfl

theorem addDict (s : Store) (entries : Entries) : s.Enlarges (s.addDict entries).2 :=
  { refl s with dicts := .push _ _ }

theorem addList (s : Store) (items : List Value) : s.Enlarges (s.addList items).2 :=
  { refl s with lists := .push _ _ }

theorem addWare (s : Store) (w : Ware) : s.Enlarges (s.addWare w).2 :=
  { refl s with wares := .push _ _ }

theorem addStep (s : Store) (step : Step) : s.Enlarges (s.addStep step).2 :=
  { refl s with steps := .push _ _ }

theorem addFunction (s : Store) (function : Function) : s.Enlarges (s.addFunction function).2 := { refl s with }

theorem addProcessor (s : Store) (type : Nat) : s.Enlarges (s.addProcessor type).2 :=
  { refl s with dicts := .push _ _, processors := .push _ _ }

/-- Where nothing but tuples and errors comes or changes, all objects are as they were. -/
theorem of_faults (s : Store) (tuples : Array (List Value)) (faults : Array Fault) :
    s.Enlarges { s with tuples := tuples, faults := faults } := { refl s with }

/-- Copies of containers are new, and nothing else is made with them. -/
theorem ownContainers_eq (s : Store) (t : Table Value) : ∃ dicts lists sets,
    (s.ownContainers t).2 = { s with dicts := dicts, lists := lists, sets := sets } := by
  induction t generalizing s with
  | nil => exact ⟨_, _, _, rfl⟩
  | cons e t ih =>
    obtain ⟨key, v⟩ := e
    rw [ownContainers]
    split
    · exact ih s
    · split
      · exact ih s
      · rename_i copy s₁ hcopy
        obtain ⟨dicts, lists, sets, heq⟩ := ih s₁
        refine ⟨dicts, lists, sets, heq.trans ?_⟩
        cases v <;> cases hcopy <;> rfl

theorem derive {base d : Nat} {t : TypeDef} {documented : Bool}
    (h : s.Drawn base (s.derive base documented).2 d t) : s.Enlarges (s.derive base documented).2 := by
  obtain ⟨dicts, lists, sets, heq⟩ := ownContainers_eq s (s.visibleAttrs (s.type base).ancestry)
  refine ⟨h.kept, ?_, ?_, ?_, ?_, ?_⟩ <;>
    · unfold Store.derive
      dsimp only
      rw [heq]
      exact .refl _

end Enlarges

/-- All that classes name stays there while no container goes, no class is made or changed, and no set. -/
theorem Housed.of_holds (hs : s.Housed) (h : ∀ v, s.Holds v → s'.Holds v) (htypes : s'.types = s.types)
    (hsets : s'.sets = s.sets) : s'.Housed := by
  have htype (c : Nat) : s'.type c = s.type c := by rw [type, htypes, type]
  refine ⟨fun c j hj => ?_, fun {c name v} hv => ?_, fun i => ?_⟩
  · rw [htype] at hj
    rw [htypes]
    exact hs.ancestors c j hj
  · rw [htype] at hv
    exact h v (hs.held hv)
  · rw [set, hsets]
    exact hs.fits i

/-- To change one object keeps all that classes name there, if a set keeps to what sets can hold. -/
theorem Housed.of_alters (hs : s.Housed) (h : s.Alters v s') (hfits : ∀ i, v = .set i → (s'.set i).Fits) : s'.Housed := by
  have htype (c : Nat) : s'.type c = s.type c := by rw [type, h.untouched.1, type]
  have hholds (w : Value) (hw : s.Holds w) : s'.Holds w := by
    cases w with
    | dict i => exact h.there.mpr (show s.There (.dict i) from hw)
    | list i => exact h.there.mpr (show s.There (.list i) from hw)
    | set i => exact h.there.mpr (show s.There (.set i) from hw)
    | _ => trivial
  refine ⟨fun c j hj => ?_, fun {c name w} hw => ?_, fun i => ?_⟩
  · rw [htype] at hj
    rw [h.untouched.1]
    exact hs.ancestors c j hj
  · rw [htype] at hw
    exact hholds w (hs.held hw)
  · by_cases hi : v = .set i
    · exact hfits i hi
    · have hsame : s'.set i = s.set i := h.sameAt (w := .set i) (Ne.symm hi)
      rw [hsame]
      exact hs.fits i

end Store

namespace Machine
variable {V : Value → Prop} {m m' m'' : Machine} {s : Store} {v : Value}

/-- Whether all that is there stays there, and stays the same apart from some objects; entries can still be logged, and all
that classes name is there. -/
structure Retains (V : Value → Prop) (m m' : Machine) : Prop where
  stands : ∀ v, m.store.Stands v → m'.store.Stands v
  same : ∀ v, m.store.Stands v → ¬ V v → m.store.SameAs m'.store v
  tame : m.Tame → m'.Tame
  housed : m.store.Housed → m'.store.Housed

namespace Retains

theorem refl (V : Value → Prop) (m : Machine) : m.Retains V m := ⟨fun _ h => h, fun v _ _ => .refl _ v, id, id⟩

theorem trans (h : m.Retains V m') (h' : m'.Retains V m'') : m.Retains V m'' where
  stands v hv := h'.stands v (h.stands v hv)
  same v hv hV := (h.same v hv hV).trans (h'.same v (h.stands v hv) hV)
  tame := h'.tame ∘ h.tame
  housed := h'.housed ∘ h.housed

/-- What changes was perhaps not there before. -/
theorem mono {W : Value → Prop} (h : m.Retains V m') (hV : ∀ v, m.store.Stands v → V v → W v) : m.Retains W m' where
  stands := h.stands
  same v hv hW := h.same v hv fun hv' => hW (hV v hv hv')
  tame := h.tame
  housed := h.housed

theorem of_noted (h : m.Noted m') : m.Retains V m' where
  stands v hv := by rwa [h.store]
  same v _ _ := by
    rw [h.store]
    exact .refl _ v
  tame := h.tame
  housed hs := by rwa [h.store]

/-- To make something new retains all that is there. -/
theorem of_enlarges (h : m.store.Enlarges s) (hhoused : m.store.Housed → s.Housed) :
    m.Retains V { m with store := s } where
  stands _ := h.stands
  same _ hv _ := h.sameAs hv
  tame ht := ⟨ht.plain, ht.lists⟩
  housed := hhoused

/-- To change one object retains all others. -/
theorem of_alters (h : m.store.Alters v s) (hV : V v) (hhoused : m.store.Housed → s.Housed) :
    m.Retains V { m with store := s } where
  stands w hw := by
    have hthere := (h.there (w := w)).mpr
    cases w with
    | ware i | step i | type i => cases h <;> exact hw
    | _ => exact hthere hw
  same w _ hw := by
    have hsame := h.sameAt (w := w) fun he => hw (he ▸ hV)
    cases w with
    | ware i | step i | type i => cases h <;> rfl
    | _ => exact hsame
  tame ht := ⟨ht.plain, ht.lists⟩
  housed := hhoused

theorem updateDict (m : Machine) (i : Nat) (g : Entries → Entries) (hV : V (.dict i)) :
    m.Retains V { m with store := m.store.updateDict i g } := by
  refine of_alters (.dict i g) hV fun hs => hs.of_holds (fun v hv => ?_) rfl rfl
  cases v with
  | dict j => exact Nat.lt_of_lt_of_eq hv Array.size_modify.symm
  | _ => exact hv

theorem updateList (m : Machine) (i : Nat) (g : Array Value → Array Value) (hV : V (.list i)) :
    m.Retains V { m with store := m.store.updateList i g } := by
  refine of_alters (.list i g) hV fun hs => hs.of_holds (fun v hv => ?_) rfl rfl
  cases v with
  | list j => exact Nat.lt_of_lt_of_eq hv Array.size_modify.symm
  | _ => exact hv

theorem updateType (m : Machine) (i : Nat) (g : TypeDef → TypeDef) (hV : V (.type i))
    (hhoused : m.store.Housed → (m.store.updateType i g).Housed) :
    m.Retains V { m with store := m.store.updateType i g } where
  stands v hv := by
    cases v with
    | type j => exact Nat.lt_of_lt_of_eq hv Array.size_modify.symm
    | _ => exact hv
  same v _ hv := by
    cases v with
    | type j => exact getD_modify_of_ne (fun (hij : i = j) => hv (hij ▸ hV)) _ _
    | _ => rfl
  tame ht := ⟨ht.plain, ht.lists⟩
  housed := hhoused

/-- To make what is neither a class nor a set retains all that is there. -/
theorem of_made (h : m.store.Enlarges s) (htypes : s.types = m.store.types) (hsets : s.sets = m.store.sets) :
    m.Retains V { m with store := s } :=
  of_enlarges h fun hs => hs.of_holds (fun _ => h.holds) htypes hsets

end Retains
end Machine

namespace Work
variable {α : Type} {V : Value → Prop} {m : Machine} {σ : Service}

/-- To raise an error retains all that is there. -/
theorem retains_fail (failure : Failure) (m : Machine) (σ : Service) : m.Retains V ((fail failure : Work α) σ m).2 := by
  obtain ⟨tuples, faults, hfault⟩ := m.store.addFault_eq (.plain failure.kind) [.str failure.message] .null
  have hraised := Store.SameErrors.noteRaised (m.store.addFault (.plain failure.kind) [.str failure.message] .null).2
    (.fault m.store.faults.size) (m.handling.headD .null)
  obtain ⟨faults', heq⟩ := hraised.rest
  have hend : ((fail failure : Work α) σ m).2 = { m with store := { m.store with tuples := tuples, faults := faults' } } := by
    refine (congrArg (fun s : Store => { m with store := s }) heq).trans ?_
    rw [hfault]
  rw [hend]
  exact .of_made (.of_faults _ _ _) rfl rfl

end Work
end Treeworks
