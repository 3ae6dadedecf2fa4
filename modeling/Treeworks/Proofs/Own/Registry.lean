import Treeworks.Proofs.Own.Edits

/-! What is registered with the ware of one of some isolated instances: steps come behind its other steps, and attachers
that have been applied behind its other attachers. The registries of the other instances stay the same. -/
namespace Treeworks

namespace Work
variable {m : Machine} {w a f : Nat}

/-- Makes a step of a callable, its leading arguments fixed. -/
def madeStep (callee : Value) (leading : List Value) : Work Step := do
  if leading.isEmpty then stepOf callee else do
    let step ← stepOf (← make fun s => s.fix callee leading)
    pure { step with name := ← describe callee }

theorem useStep_eq {callee : Value} (h : m.store.isCallable callee = true) (w : Nat) (leading : List Value) (σ : Service) :
    useStep w callee leading σ m = (madeStep callee leading >>= putStep w) σ m := by
  unfold useStep
  rw [isCallable, (gives_query _ m).bind_eq, h]
  cases leading with
  | nil => rfl
  | cons v leading =>
    show ((make fun s => s.fix callee (v :: leading)) >>= fun fixed => stepOf fixed >>= fun step =>
      describe callee >>= fun name => putStep w { step with name := name } : Work Unit) σ m = _
    simp only [madeStep, List.isEmpty_cons, Bool.false_eq_true, if_false, bind_assoc]
    rfl

section
variable {i : Nat} {t : String} (hplain : wrapped m.store (.function i) = .function i)
  (hname : m.store.functionAttr i "__qualname__" = some (.str t))
include hplain hname

theorem gives_describe : ∃ name, (describe (.function i)).Gives m name m := by
  have hattr : m.store.attr? (.function i) "__qualname__" = some (.str t) := by
    rw [Store.attr?, Store.ownAttr?, hname]
  have hread := gives_attrOrNull_of_isDirect (m := m) rfl hattr
  have htruth := gives_truth_of_isScalar (v := .str t) rfl m
  refine ⟨if m.store.truthy (.str t) then .str t else .str (m.store.typeName (.function i)), (gives_store m).bind fun σ => ?_⟩
  rw [hplain, hread.bind_eq, htruth.bind_eq]
  cases m.store.truthy (.str t) <;> rfl

/-- A function that goes by a name is made a step of without asking anybody. -/
theorem gives_madeStep : ∃ step, (madeStep (.function i) []).Gives m step m := by
  obtain ⟨name, hdescribe⟩ := gives_describe hplain hname
  have hask := gives_query (fun s => s.signature? (.function i)) m
  cases hsignature : m.store.signature? (.function i) with
  | none =>
    rw [hsignature] at hask
    exact ⟨_, hask.bind (hdescribe.bind fun _ => rfl)⟩
  | some signature =>
    rw [hsignature] at hask
    cases hrest : signature.hasRest with
    | true => exact ⟨_, hask.bind (hdescribe.bind fun σ => congrFun (congrFun (if_pos hrest) σ) m)⟩
    | false =>
      have hnone : ¬ signature.hasRest = true := hrest ▸ Bool.false_ne_true
      exact ⟨_, hask.bind (hdescribe.bind fun σ => congrFun (congrFun (if_neg hnone) σ) m)⟩

end

/-- The machine after a step has been put behind the other steps of a ware. -/
def registering (m : Machine) (f : Nat) (step : Step) : Machine :=
  { m with store := (m.store.addStep step).2.pushed f (.step m.store.runner.steps.size) }

/-- To put a step behind the others makes it and appends it to the list of steps. -/
theorem gives_putStep (h : m.store.Equips w a f) (step : Step) : (putStep w step).Gives m () (registering m f step) :=
  (gives_fns h).bind fun _ => rfl

theorem gives_length (h : m.store.Equips w a f) : (size (.ware w)).Gives m (m.store.list f).length m := by
  have hspecial : (special? (.ware w) "__len__").Gives m none m := fun _ => rfl
  have hlist : (special? (.list f) "__len__").Gives m none m := fun _ => rfl
  have hsteps (n : Nat) : (sizeAt (n + 1) (.list f)).Gives m (m.store.list f).length m := by
    refine (gives_store m).bind fun σ => ?_
    rw [hlist.bind_eq]
    rfl
  have hware (n : Nat) : (sizeAt (n + 2) (.ware w)).Gives m (m.store.list f).length m := by
    refine (gives_store m).bind fun σ => ?_
    rw [hspecial.bind_eq]
    dsimp only
    rw [h.steps]
    exact hsteps n σ
  exact hware 898

end Work

namespace Isolated
open Work
variable {made : Value → List Value} {F K S : Set Nat} {m : Machine} {p : Nat}

/-- An instance bears the name of its family. -/
theorem named (h : Isolated made F K S m) (hp : p ∈ S) : ∃ t, m.store.Named p t := by
  have hequipped := h.equipped p hp
  have hregular := h.regular _ hequipped.family
  obtain ⟨t, ht⟩ := hregular.named
  refine ⟨t, hequipped.stands _ (.core .fields), hregular.direct, fun v hv => ?_, ?_⟩
  · cases ht.symm.trans hv
    rfl
  · unfold Store.instanceAttr?
    rw [ht, hequipped.unnamed]
    rfl

/-- The ware of an instance is read off its dictionary. -/
theorem gives_ware (h : Isolated made F K S m) (hp : p ∈ S) {w : Nat}
    (hw : m.store.field? (m.store.processor p) "ware" = some (.ware w)) :
    (attr (.processor p) "ware").Gives m (.ware w) m := by
  have hregular := h.regular _ (h.equipped p hp).family
  exact gives_field (by decide +kernel) hregular.direct
    (fun v hv => Store.mute_of_isInert (hregular.ware v hv) _) hw

/-- To log how many steps an instance has changes nothing but the log. -/
theorem notes_transformers (h : Isolated made F K S m) (hp : p ∈ S) (event : String) (σ : Service) :
    (logTransformers (.processor p) event).Notes σ m := by
  obtain ⟨t, ht⟩ := h.named hp
  obtain ⟨w, a, f, hw, hequips, -⟩ := (h.equipped p hp).ware
  have hcount : (transformers (.processor p)).Gives m (.int (m.store.list f).length) m :=
    (h.gives_ware hp hw).bind ((gives_length hequips).bind fun _ => rfl)
  refine notes_bind (gives_name ht σ) (.refl m) (notes_bind (hcount σ) (.refl m) ?_)
  refine notes_log h.tame (by decide) (fun e he => ?_) _ _
  simp only [List.mem_cons, List.not_mem_nil, or_false] at he
  obtain rfl | rfl := he
  · exact ⟨rfl, show "processor" ∉ unusualNames by decide⟩
  · exact ⟨rfl, show "transformers" ∉ unusualNames by decide⟩

end Isolated

namespace LeavesOthers
open Work
variable {made : Value → List Value} {F K P S T : Set Nat} {m m' : Machine} {p w a f : Nat} {σ : Service}

/-- The ware of an instance has its two lists. -/
theorem equips (h : Isolated made F K S m) (hp : p ∈ S)
    (hw : m.store.field? (m.store.processor p) "ware" = some (.ware w)) : ∃ a f, m.store.Equips w a f := by
  obtain ⟨w', a, f, hw', hequips, -⟩ := (h.equipped p hp).ware
  cases hw.symm.trans hw'
  exact ⟨a, f, hequips⟩

/-- What leaves the instances isolated leaves each with its ware, which has its two lists. -/
theorem ware_after {m₁ : Machine} (h : LeavesOthers made F K P S m T m₁) (hp : p ∈ S)
    (hw : m.store.field? (m.store.processor p) "ware" = some (.ware w)) :
    m₁.store.field? (m₁.store.processor p) "ware" = some (.ware w) ∧ ∃ a f, m₁.store.Equips w a f := by
  have hw' := ((h.core p hp).field? (by decide)).trans hw
  exact ⟨hw', equips h.isolated (h.grows hp) hw'⟩

section
variable (h : Isolated made F K S m) (hp : p ∈ S) (hP : p ∈ P)
include h hp hP

/-- What becomes of a list that an instance is made of leaves the others, if only steps come to it that were nobody's. -/
theorem of_list {i : Nat} (hretains : m.Retains (· = .list i) m') (hi : m.store.Core p (.list i))
    (hcore : m.store.SameCore m'.store p)
    (hsteps : ∀ k, m'.store.Registered p k → m.store.Registered p k ∨
      m'.store.Stands (.step k) ∧ ¬ m.store.Stands (.step k)) : LeavesOthers made F K P S m S m' := by
  have hequipped := h.equipped p hp
  have hsame {v : Value} (hv : m.store.Own made p v) (hne : v ≠ .list i) : m.store.SameAs m'.store v :=
    hretains.same v (hequipped.stands v hv) hne
  refine of_renewed h hretains hp hP (fun v hv => hv ▸ .core hi) hcore nofun (fun v hv => .inl ?_) hsteps
  have hfields := hsame (.core .fields) nofun
  refine (Store.data_congr hcore.self (Store.field?_congr _ hfields _) fun w hw => hsame (.data hw) ?_).mp hv
  rintro rfl
  exact hequipped.data hw hi

variable (hw : m.store.field? (m.store.processor p) "ware" = some (.ware w)) (hequips : m.store.Equips w a f)
include hw hequips

/-- An attacher is recorded for one instance. -/
theorem of_recorded (v : Value) : LeavesOthers made F K P S m S (m.recorded a v) := by
  have hcore : m.store.SameCore (m.recorded a v).store p := ⟨rfl, fun _ _ => rfl, fun _ _ => rfl⟩
  refine of_list h hp hP (.updateList m a _ rfl) (.attachers hw hequips.attachers) hcore fun k hk => .inl ?_
  obtain ⟨w', f', hw', hf', hk⟩ := hk
  cases hw.symm.trans hw'
  cases hequips.steps.symm.trans hf'
  have hsame : (m.recorded a v).store.list f = m.store.list f := Store.list_pushed_of_ne hequips.ne v
  exact ⟨w, f, hw, hequips.steps, hsame ▸ hk⟩

/-- A step is registered for one instance. -/
theorem of_registering (step : Step) : LeavesOthers made F K P S m S (registering m f step) := by
  have hcore : m.store.SameCore (registering m f step).store p := ⟨rfl, fun _ _ => rfl, fun _ _ => rfl⟩
  have hmade : m.Retains (· = .list f) { m with store := (m.store.addStep step).2 } :=
    .of_made (.addStep m.store step) rfl rfl
  have hretains : m.Retains (· = .list f) (registering m f step) := hmade.trans (.updateList _ f _ rfl)
  refine of_list h hp hP hretains (hequips.steps ▸ .steps hw) hcore fun k hk => ?_
  obtain ⟨w', f', hw', hf', hk⟩ := hk
  cases hw.symm.trans hw'
  cases hequips.steps.symm.trans hf'
  have hlist : (registering m f step).store.list f = m.store.list f ++ [.step m.store.runner.steps.size] :=
    Store.list_pushed_self (s := (m.store.addStep step).2) hequips.steps_lt _
  rw [hlist] at hk
  obtain hk | hk := List.mem_append.mp hk
  · exact .inl ⟨w, f, hw, hequips.steps, hk⟩
  · cases List.mem_singleton.mp hk
    exact .inr ⟨Nat.lt_of_lt_of_eq (Nat.lt_succ_self _) (Array.size_push _).symm, Nat.lt_irrefl _⟩

end

section
variable {args : List Value} (h : Isolated made F K S m) (hp : p ∈ S)
  (hw : m.store.field? (m.store.processor p) "ware" = some (.ware w))
include h hp hw

/-- To register a callable leaves the others if to make a step of it does. -/
theorem of_useStep (hP : p ∈ P) {callee : Value} {leading : List Value} (hcallable : m.store.isCallable callee = true)
    (hmade : LeavesOthers made F K P S m T (madeStep callee leading σ m).2) :
    LeavesOthers made F K P S m T (useStep w callee leading σ m).2 := by
  rw [useStep_eq hcallable, bind_eq]
  rcases hrun : madeStep callee leading σ m with ⟨step | e | _, m₁⟩ <;> rw [hrun] at hmade
  · obtain ⟨hw', a, f, hequips⟩ := hmade.ware_after hp hw
    dsimp only
    rw [gives_putStep hequips]
    exact hmade.trans h (of_registering hmade.isolated (hmade.grows hp) hP hw' hequips step)
  · exact hmade
  · exact hmade

/-- To use or attach something by an instance leaves the others if its ware does. -/
theorem of_extend {method : String} (hmethod : method = "use" ∨ method = "attach") (hargs : args ≠ [])
    (hcall : LeavesOthers made F K P S m T (σ (.invoke (.ware w method) args) m).2) :
    LeavesOthers made F K P S m T (extendProcessor (.processor p) method args σ m).2 := by
  obtain ⟨w', a, f, hw', hequips, -, hattach⟩ := (h.equipped p hp).ware
  cases hw.symm.trans hw'
  have hstored : (m.store.runner.ware w).attrs.get? method = none := by
    obtain rfl | rfl := hmethod
    · exact hequips.own
    · exact hattach
  have hattachers : (m.store.runner.ware w).attachers.isSome = true := by rw [hequips.attachers]; rfl
  have hrun : extendProcessor (.processor p) method args σ m =
      ((serve (.invoke (.ware w method) args) : Work Value) >>= fun _ =>
        logTransformers (.processor p) ("processor." ++ method) >>= fun _ => pure (.processor p) : Work Value) σ m := by
    have hempty : ¬ args.isEmpty = true := fun he => hargs (List.isEmpty_iff.mp he)
    unfold extendProcessor
    rw [if_neg hempty]
    show (attr (.processor p) "ware" >>= fun ware => callMethod ware method args >>= _ : Work Value) σ m = _
    rw [(h.gives_ware hp hw).bind_eq, bind_eq, callMethod_ware hmethod hstored hattachers, bind_eq]
    rfl
  rw [hrun, bind_eq]
  rcases hinvoke : σ (.invoke (.ware w method) args) m with ⟨v | e | _, m₁⟩ <;> rw [hinvoke] at hcall
  · have hnotes := hcall.isolated.notes_transformers (hcall.grows hp) ("processor." ++ method) σ
    obtain ⟨u, m₂, hlog, hnoted⟩ := hnotes
    rw [serve, hinvoke]
    dsimp only
    rw [bind_eq, hlog]
    refine hcall.trans h (of_retains hcall.isolated (.of_noted hnoted (V := fun _ => False)) ?_ ?_)
    · exact fun _ => False.elim
    · exact fun _ _ => False.elim
  · rw [serve, hinvoke]
    exact hcall
  · rw [serve, hinvoke]
    exact hcall

section
variable {v : Value} {options : List Value} {out : Outcome Value} {m₁ : Machine}
  (hP : p ∈ P) (hcallable : m.store.isCallable v = true)
  (hcall : σ (.call v (m.store.given w :: options) []) m = (out, m₁)) (hleaves : LeavesOthers made F K P S m T m₁)
include hP hcallable hcall hleaves

/-- To attach an attacher that gives no step leaves the others if the call of it does. -/
theorem of_attach (hout : ∀ step, out = .done step → step = .null) :
    LeavesOthers made F K P S m T (attach w v options σ m).2 := by
  obtain ⟨hw', a, f, hequips⟩ := hleaves.ware_after hp hw
  rw [(attach_of_isCallable hcallable options σ).trans (bind_eq (α := Value) _ _ _ _), serve, hcall]
  cases out with
  | done step =>
    cases hout step rfl
    dsimp only
    rw [settleAttacher_null hequips]
    exact hleaves.trans h (of_recorded hleaves.isolated (hleaves.grows hp) hP hw' hequips v)
  | raised e => exact hleaves
  | spent => exact hleaves

/-- To attach an attacher that gives a step leaves the others if the call of it does, and so does the ware when it
registers the step. -/
theorem of_attach_step {U : Set Nat} {step : Value} (hout : out = .done step) (hstep : step ≠ .null)
    (huse : ∀ a, (m₁.store.runner.ware w).attachers = some (.list a) →
      LeavesOthers made F K P T (m₁.recorded a v) U (σ (.invoke (.ware w "use") [step]) (m₁.recorded a v)).2) :
    LeavesOthers made F K P S m U (attach w v options σ m).2 := by
  subst hout
  obtain ⟨hw', a, f, hequips⟩ := hleaves.ware_after hp hw
  have hrecorded := of_recorded hleaves.isolated (hleaves.grows hp) hP hw' hequips v
  have hused := huse a hequips.attachers
  rw [(attach_of_isCallable hcallable options σ).trans (bind_eq (α := Value) _ _ _ _), serve, hcall]
  dsimp only
  have hrun : settleAttacher w v step σ m₁ =
      ((serve (.invoke (.ware w "use") [step]) : Work Value) >>= fun _ => pure ()) σ (m₁.recorded a v) := by
    refine (append_attachers hequips v _ σ).trans ?_
    rw [if_pos hstep, bind_eq, callMethod_use (hequips.pushed a v), bind_eq]
    rfl
  rw [hrun, bind_eq, serve]
  rcases hinvoke : σ (.invoke (.ware w "use") [step]) (m₁.recorded a v) with ⟨u | e | _, m₂⟩ <;> rw [hinvoke] at hused
  · exact hleaves.trans h (hrecorded.trans hleaves.isolated hused)
  · exact hleaves.trans h (hrecorded.trans hleaves.isolated hused)
  · exact hleaves.trans h (hrecorded.trans hleaves.isolated hused)

end

end

end LeavesOthers
end Treeworks
