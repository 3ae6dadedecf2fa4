import Treeworks.Proofs.Attach.Nested
import Treeworks.Proofs.Own.Pristine

/-! Histories of some families and their instances: instances are made, defaults are noted, callables are used and attachers
attached by instances and by families, containers and attributes of the classes of an instance are changed, and its data at
any depth. Meanwhile anything may be done elsewhere. The instances stay isolated throughout. -/
namespace Treeworks

/-- What can become of some isolated instances and their machine by what is done through some of them, with whoever answers
requests meanwhile: whatever is asked for on the way does the same. -/
inductive Course (made : Value → List Value) (F K P : Set Nat) : Set Nat → Machine → Set Nat → Machine → Prop
  | rest {S m} : Course made F K P S m S m
  | seq {S T U m m' m''} (first : Course made F K P S m T m') (second : Course made F K P T m' U m'') :
      Course made F K P S m U m''
  /-- Something is done with objects that are no instance's and no class's in common. -/
  | elsewhere {S m m'} (V : Value → Prop) (retains : m.Retains V m') (off : ∀ v, V v → ¬ m.store.Tracked made K S v)
      (types : ∀ c ∈ K, ¬ V (.type c)) : Course made F K P S m S m'
  /-- A family is called for anything but one of its instances, and gives an instance. -/
  | construct {S m m' c v args keywords σ p} (family : c ∈ F) (passes : Passes v args keywords)
      (foreign : Work.isInstance m.store v c = false) (stands : m.store.Stands v) (copy : Work.Detaches made m c σ)
      (run : Work.instantiate c args keywords σ m = (.done (.processor p), m')) : Course made F K P S m (insert p S) m'
  /-- The data of the family cannot be copied, and nothing comes of the call. -/
  | misconstruct {S m m' c v args keywords σ out} (family : c ∈ F) (passes : Passes v args keywords)
      (foreign : Work.isInstance m.store v c = false) (stands : m.store.Stands v) (copy : Work.Detaches made m c σ)
      (run : Work.instantiate c args keywords σ m = (out, m')) (fails : ∀ u, out ≠ .done u) : Course made F K P S m S m'
  /-- A family that has noted nothing is asked for its default, and notes what it gives when it is called. -/
  | default {S T m c σ} (family : c ∈ F) (fresh : m.store.noted c = .null)
      (call : Course made F K P S m T (Work.callClass c σ m).2) (still : (Work.callClass c σ m).2.store.noted c = .null)
      (gives : ∀ v m', Work.callClass c σ m = (.done v, m') → ∃ p ∈ T, v = .processor p) :
      Course made F K P S m T (Work.defaultProcessor c σ m).2
  /-- The ware of an instance registers a callable. -/
  | use {S T m p w callee leading σ} (member : p ∈ S) (through : p ∈ P)
      (ware : m.store.field? (m.store.processor p) "ware" = some (.ware w)) (callable : m.store.isCallable callee = true)
      (step : Course made F K P S m T (Work.madeStep callee leading σ m).2) :
      Course made F K P S m T (Work.useStep w callee leading σ m).2
  /-- The ware of an instance applies an attacher, which gives no step or fails. -/
  | apply {S T m m₁ p w v options σ out} (member : p ∈ S) (through : p ∈ P)
      (ware : m.store.field? (m.store.processor p) "ware" = some (.ware w)) (callable : m.store.isCallable v = true)
      (call : σ (.call v (m.store.given w :: options) []) m = (out, m₁)) (nothing : ∀ step, out = .done step → step = .null)
      (meanwhile : Course made F K P S m T m₁) : Course made F K P S m T (Work.attach w v options σ m).2
  /-- The ware of an instance applies an attacher, and registers the step that it gives. -/
  | applyStep {S T U m m₁ p w v options σ step} (member : p ∈ S) (through : p ∈ P)
      (ware : m.store.field? (m.store.processor p) "ware" = some (.ware w)) (callable : m.store.isCallable v = true)
      (call : σ (.call v (m.store.given w :: options) []) m = (.done step, m₁)) (something : step ≠ .null)
      (meanwhile : Course made F K P S m T m₁)
      (registers : ∀ a, (m₁.store.runner.ware w).attachers = some (.list a) →
        Course made F K P T (m₁.recorded a v) U (σ (.invoke (.ware w "use") [step]) (m₁.recorded a v)).2) :
      Course made F K P S m U (Work.attach w v options σ m).2
  /-- An instance has its ware use or attach something. -/
  | extend {S T m p w method args σ} (member : p ∈ S)
      (ware : m.store.field? (m.store.processor p) "ware" = some (.ware w)) (known : method = "use" ∨ method = "attach")
      (given : args ≠ []) (call : Course made F K P S m T (σ (.invoke (.ware w method) args) m).2) :
      Course made F K P S m T (Work.extendProcessor (.processor p) method args σ m).2
  /-- A container that a class of an instance offers comes to hold something else. -/
  | table {S m p i name v s} (member : p ∈ S) (through : p ∈ P) (part : m.store.IsPart p i)
      (plain : Store.isReserved name = false) (offers : m.store.typeAttr? i name = some v) (container : v.isContainer = true)
      (alters : m.store.Alters v s) (fits : ∀ i, v = .set i → (s.set i).Fits) :
      Course made F K P S m S { m with store := s }
  /-- An attribute of a class of an instance is set, to a container only if that is its own already or nobody's. -/
  | setClass {S m p i name v σ} (member : p ∈ S) (through : p ∈ P) (part : m.store.IsPart p i) (stands : m.store.Stands v)
      (unshared : v.isContainer = true → (∃ j, m.store.IsPart p j ∧ m.store.Tabled j v) ∨ ¬ m.store.Tracked made K S v) :
      Course made F K P S m S (Work.setAttribute (.type i) name v σ m).2
  /-- Something within the data of an instance comes to hold something else, which was its own already or nobody's. -/
  | data {S m p v s} (member : p ∈ S) (through : p ∈ P) (within : m.store.Data made p v) (alters : m.store.Alters v s)
      (fits : ∀ i, v = .set i → (s.set i).Fits) (unshared : m.store.Obtains made K S p s) :
      Course made F K P S m S { m with store := s }
  /-- An instance gets other data, which were its own already or nobody's. -/
  | setData {S m p v σ} (member : p ∈ S) (through : p ∈ P)
      (unshared : m.store.Obtains made K S p (Work.setAttribute (.processor p) "data" v σ m).2.store) :
      Course made F K P S m S (Work.setAttribute (.processor p) "data" v σ m).2

namespace Course
variable {made : Value → List Value} {F K P S T U : Set Nat} {m m' m₁ : Machine}

/-- In the course of a history the instances stay isolated, and those that nothing is done through stay as they are. -/
theorem leaves (h : Course made F K P S m T m') (hm : Isolated made F K S m) : LeavesOthers made F K P S m T m' := by
  -- By induction on the history. What carries it is that the instances are isolated again when a step has ended.
  induction h with
  | rest => exact .refl hm
  | seq _ _ ih₁ ih₂ =>
    have h₁ := ih₁ hm
    exact h₁.trans hm (ih₂ h₁.isolated)
  | elsewhere V retains off types => exact .of_retains hm retains off types
  | construct family passes foreign stands copy run =>
    obtain ⟨p, m', hrun, hleaves, -⟩ | ⟨out, m', hrun, hout, -⟩ :=
      LeavesOthers.of_instantiate (P := P) hm family passes foreign stands _ copy
    · cases run.symm.trans hrun
      exact hleaves
    · cases run.symm.trans hrun
      exact absurd rfl (hout _)
  | misconstruct family passes foreign stands copy run fails =>
    obtain ⟨p, m', hrun, -⟩ | ⟨out, m', hrun, -, hleaves, -⟩ :=
      LeavesOthers.of_instantiate (P := P) hm family passes foreign stands _ copy
    · cases run.symm.trans hrun
      exact absurd rfl (fails _)
    · cases run.symm.trans hrun
      exact hleaves
  | @default S T m c σ family fresh call still gives ih =>
    have h₁ := ih hm
    rw [Work.defaultProcessor_new fresh]
    rcases hcall : Work.callClass c σ m with ⟨v | e | _, m₁⟩ <;> rw [hcall] at h₁ still
    -- What the family notes is one of the isolated instances by then, and may be the new one.
    · obtain ⟨p, hp, rfl⟩ := gives v m₁ hcall
      exact h₁.trans hm (.of_note h₁.isolated family hp still)
    · exact h₁
    · exact h₁
  | use member through ware callable _ ih => exact .of_useStep hm member ware through callable (ih hm)
  | apply member through ware callable call nothing _ ih =>
    exact .of_attach hm member ware through callable call (ih hm) nothing
  | applyStep member through ware callable call something _ _ ih₁ ih₂ =>
    have h₁ := ih₁ hm
    -- The attacher is recorded before its step is registered, when the instances are isolated still.
    refine .of_attach_step hm member ware through callable call h₁ rfl something fun a ha => ih₂ a ha ?_
    obtain ⟨hw, a', f, hequips⟩ := h₁.ware_after member ware
    cases hequips.attachers.symm.trans ha
    exact (LeavesOthers.of_recorded h₁.isolated (h₁.grows member) through hw hequips _).isolated
  | extend member ware known given _ ih => exact .of_extend hm member ware known given (ih hm)
  | table member through part plain offers container alters fits =>
    exact .of_table hm member through part plain offers container alters fits
  | setClass member through part stands unshared => exact .of_attribute hm member through part stands unshared _
  | data member through within alters fits unshared => exact .of_data hm member through within alters fits unshared
  | setData member through unshared => exact .of_setData hm member through _ unshared

/-! ### Calls of instances and families -/

section
variable {c depth : Nat} {v : Value} {args : List Value} {keywords : Table Value} (hm : Isolated made F K S m) (hc : c ∈ F)
  (hcopy : Work.Detaches made m c (service depth))
include hm hc hcopy

/-- A family is called for anything but one of its instances: there is one more, or there is none. -/
theorem of_call (hpasses : Passes v args keywords) (hv : Work.isInstance m.store v c = false) (hstands : m.store.Stands v) :
    ∃ T, Course made F K P S m T (service (depth + 1) (.call (.type c) args keywords) m).2 ∧
      (service (depth + 1) (.call (.type c) args keywords) m).2.store.type c = m.store.type c ∧
      ∀ u m', service (depth + 1) (.call (.type c) args keywords) m = (.done u, m') → ∃ p ∈ T, u = .processor p := by
  have hserve : service (depth + 1) (.call (.type c) args keywords) m =
      Work.instantiate c args keywords (service depth) m := rfl
  rw [hserve]
  obtain ⟨p, m', hrun, -, htypes, -⟩ | ⟨out, m', hrun, hout, -, htypes, -⟩ :=
    LeavesOthers.of_instantiate (P := P) hm hc hpasses hv hstands _ hcopy
  · refine ⟨insert p S, hrun ▸ .construct hc hpasses hv hstands hcopy hrun, ?_, fun u m'' h => ?_⟩
    · rw [hrun]
      exact htypes c (hm.families hc)
    · cases hrun.symm.trans h
      exact ⟨p, Set.mem_insert p S, rfl⟩
  · refine ⟨S, hrun ▸ .misconstruct hc hpasses hv hstands hcopy hrun hout, ?_, fun u m'' h => ?_⟩
    · rw [hrun]
      exact htypes c (hm.families hc)
    · cases hrun.symm.trans h
      exact absurd rfl (hout u)

/-- A family is asked for its default: it has noted one, or notes one that is made, or there is none. -/
theorem of_default {j : Nat} (hj : (m.store.type j).role = .family) :
    ∃ T, Course made F K P S m T (service (depth + 2) (.invoke (.inborn j "default" (.type c)) []) m).2 := by
  have hserve : service (depth + 2) (.invoke (.inborn j "default" (.type c)) []) m =
      Work.defaultProcessor c (service (depth + 1)) m := by
    show Work.inbornMethod j "default" (.type c) [] (service (depth + 1)) m = _
    rw [Work.inbornMethod_of_family hj, if_neg (by decide), Work.familyMethod_default]
    rfl
  rw [hserve]
  by_cases hnoted : m.store.noted c = .null
  · obtain ⟨T, hcourse, htype, hgives⟩ := of_call (P := P) hm hc hcopy .nothing rfl trivial
    refine ⟨T, .default hc hnoted hcourse ?_ hgives⟩
    show ((service (depth + 1) (.call (.type c) [] []) m).2.store.noted c) = .null
    rw [Store.noted, htype]
    exact hnoted
  · rw [Work.defaultProcessor_known hnoted]
    exact ⟨S, .rest⟩

end

/-- To attach leaves in order is to attach one after the other. -/
theorem of_attachInOrder {depth w : Nat} {options : List Value} {leaves : List (Nat × Value)}
    (hleaf : ∀ leaf ∈ leaves, ∀ {T m₁}, Course made F K P S m T m₁ →
      ∃ U, Course made F K P T m₁ U (service (depth - leaf.1) (.attach w leaf.2 options) m₁).2) :
    ∃ U, Course made F K P S m U (Work.attachInOrder depth w options leaves m).2 := by
  -- What the leaves before have done is a history itself, so that each is attached wherever that has led.
  suffices hgo : ∀ {T m₁}, Course made F K P S m T m₁ →
      ∃ U, Course made F K P T m₁ U (Work.attachInOrder depth w options leaves m₁).2 from hgo .rest
  induction leaves with
  | nil => exact fun {T m₁} _ => ⟨T, .rest⟩
  | cons leaf rest ih =>
    intro T m₁ hbefore
    obtain ⟨hhead, htail⟩ := List.forall_mem_cons.mp hleaf
    obtain ⟨U, hU⟩ := hhead hbefore
    obtain ⟨level, v⟩ := leaf
    rw [Work.attachInOrder]
    rcases hrun : service (depth - level) (.attach w v options) m₁ with ⟨u | e | _, m₂⟩ <;> rw [hrun] at hU
    · obtain ⟨W, hW⟩ := ih htail (hbefore.seq hU)
      exact ⟨W, hU.seq hW⟩
    · exact ⟨U, hU⟩
    · exact ⟨U, hU⟩

section
variable {method : String} (hmethod : method = "use" ∨ method = "attach")
include hmethod

theorem familyMethod_processor (p : Nat) (args : List Value) :
    Work.familyMethod method (.processor p) args = Work.extendProcessor (.processor p) method args := by
  obtain rfl | rfl := hmethod <;> rfl

/-- To use or attach something by a family is to do so by its default. -/
theorem of_family {c j p : Nat} {args : List Value} {σ : Service} (hoffers : m.store.Offers c "default" j)
    (hdefault : σ (.invoke (.inborn j "default" (.type c)) []) m = (.done (.processor p), m₁))
    (first : Course made F K P S m T m₁)
    (second : Course made F K P T m₁ U (Work.extendProcessor (.processor p) method args σ m₁).2) :
    Course made F K P S m U (Work.familyMethod method (.type c) args σ m).2 := by
  have hne : method ≠ "default" ∧ method ≠ "ensure" := by
    obtain rfl | rfl := hmethod <;> decide
  have hextend : Work.processorMethod method (.processor p) args = Work.extendProcessor (.processor p) method args := by
    obtain rfl | rfl := hmethod <;> rfl
  rw [Work.familyMethod_of_ne hne.1 hne.2]
  dsimp only
  rw [Work.bind_eq, Work.callMethod_type hoffers, hdefault]
  dsimp only
  rw [hextend]
  exact first.seq second

/-- An instance that is called to use or attach something has its ware do so. -/
theorem service_extend {j : Nat} (hj : (m.store.type j).role = .family) (depth p : Nat) (args : List Value) :
    service (depth + 1) (.invoke (.inborn j method (.processor p)) args) m =
      Work.extendProcessor (.processor p) method args (service depth) m := by
  have hne : method ≠ "__repr__" := by
    obtain rfl | rfl := hmethod <;> decide
  show Work.inbornMethod j method (.processor p) args (service depth) m = _
  rw [Work.inbornMethod_of_family hj, if_neg hne, familyMethod_processor hmethod]

end

/-- A ware that is called to use something registers it. -/
theorem service_use (depth w : Nat) (callee : Value) (leading : List Value) (m : Machine) :
    (service (depth + 1) (.invoke (.ware w "use") (callee :: leading)) m).2 =
      (Work.useStep w callee leading (service depth) m).2 := by
  show ((Work.useStep w callee leading >>= fun _ => pure (.ware w) : Work Value) (service depth) m).2 = _
  rw [Work.bind_eq]
  rcases Work.useStep w callee leading (service depth) m with ⟨u | e | _, m'⟩ <;> rfl

/-- A ware that is called to attach something applies it. -/
theorem service_attach (depth w : Nat) (v : Value) (options : List Value) (m : Machine) :
    (service (depth + 2) (.invoke (.ware w "attach") (v :: options)) m).2 =
      (Work.attach w v options (service depth) m).2 := by
  refine (congrArg Prod.snd (Work.bind_eq (α := Unit) _ _ _ _)).trans ?_
  rw [Work.serve]
  have hserve : service (depth + 1) (.attach w v options) m = Work.attach w v options (service depth) m := rfl
  rw [hserve]
  rcases Work.attach w v options (service depth) m with ⟨u | e | _, m'⟩ <;> rfl

section
variable {depth j p w : Nat} (hj : (m.store.type j).role = .family) (member : p ∈ S)
  (ware : m.store.field? (m.store.processor p) "ware" = some (.ware w))
include hj member ware

/-- An instance is called to use a callable. -/
theorem of_use {callee : Value} {leading : List Value} (through : p ∈ P) (callable : m.store.isCallable callee = true)
    (step : Course made F K P S m T (Work.madeStep callee leading (service depth) m).2) :
    Course made F K P S m T (service (depth + 2) (.invoke (.inborn j "use" (.processor p)) (callee :: leading)) m).2 := by
  rw [service_extend (.inl rfl) hj]
  refine .extend member ware (.inl rfl) (List.cons_ne_nil _ _) ?_
  rw [service_use]
  exact .use member through ware callable step

/-- An instance is called to use a function that goes by a name. -/
theorem of_use_function {i : Nat} {t : String} (through : p ∈ P) (plain : Work.wrapped m.store (.function i) = .function i)
    (name : m.store.functionAttr i "__qualname__" = some (.str t)) :
    Course made F K P S m S (service (depth + 2) (.invoke (.inborn j "use" (.processor p)) [.function i]) m).2 := by
  obtain ⟨step, hstep⟩ := Work.gives_madeStep plain name
  refine of_use hj member ware through rfl ?_
  rw [hstep]
  exact .rest

/-- An instance is called to attach an attacher. -/
theorem of_attach {v : Value} {options : List Value}
    (attaches : Course made F K P S m T (Work.attach w v options (service depth) m).2) :
    Course made F K P S m T (service (depth + 3) (.invoke (.inborn j "attach" (.processor p)) (v :: options)) m).2 := by
  rw [service_extend (.inr rfl) hj]
  refine .extend member ware (.inr rfl) (List.cons_ne_nil _ _) ?_
  rw [service_attach]
  exact attaches

end

end Course
end Treeworks
