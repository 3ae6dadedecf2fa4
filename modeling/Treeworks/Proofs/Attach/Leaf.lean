import Treeworks.Interpreter
import Treeworks.Proofs.Call.Steps

/-! One attacher. It is called with the context of its ware, or with the ware where there is none, and with the options;
once it has returned it stands behind the attachers that it applied itself, and the step that it gives behind the steps
that it registered itself. -/
namespace Treeworks

namespace Store
variable {s : Store} {w a f : Nat}

/-- What an attacher is applied to: the context of a ware, or the ware itself. -/
def given (s : Store) (w : Nat) : Value :=
  if (s.runner.ware w).context = .null then .ware w else (s.runner.ware w).context

/-- Whether a ware keeps its attachers and its steps in two lists, and registers steps as wares do. -/
structure Equips (s : Store) (w a f : Nat) : Prop where
  attachers : (s.runner.ware w).attachers = some (.list a)
  steps : (s.runner.ware w).steps = .list f
  ne : a ≠ f
  attachers_lt : a < s.lists.size
  steps_lt : f < s.lists.size
  own : (s.runner.ware w).attrs.get? "use" = none

instance (s : Store) (w a f : Nat) : Decidable (s.Equips w a f) :=
  decidable_of_iff ((s.runner.ware w).attachers = some (.list a) ∧ (s.runner.ware w).steps = .list f ∧ a ≠ f ∧
      a < s.lists.size ∧ f < s.lists.size ∧ (s.runner.ware w).attrs.get? "use" = none)
    ⟨fun ⟨h₁, h₂, h₃, h₄, h₅, h₆⟩ => ⟨h₁, h₂, h₃, h₄, h₅, h₆⟩, fun ⟨h₁, h₂, h₃, h₄, h₅, h₆⟩ => ⟨h₁, h₂, h₃, h₄, h₅, h₆⟩⟩

theorem list_updateList (s : Store) (i : Nat) (g : Array Value → Array Value) (j : Nat) :
    (s.updateList i g).list j = if i = j ∧ j < s.lists.size then (g (s.lists.getD j #[])).toList else s.list j := by
  unfold list updateList
  simp only [Array.getD_eq_getD_getElem?, Array.getElem?_modify]
  by_cases hj : j < s.lists.size
  · by_cases hi : i = j <;> simp [hj, hi]
  · simp [hj]

/-- The store after a list has got one more item. -/
def pushed (s : Store) (i : Nat) (v : Value) : Store := s.updateList i fun items => items.push v

theorem list_pushed_self {i : Nat} (hi : i < s.lists.size) (v : Value) : (s.pushed i v).list i = s.list i ++ [v] := by
  rw [pushed, list_updateList, if_pos ⟨rfl, hi⟩, Array.toList_push]
  rfl

theorem list_pushed_of_ne {i j : Nat} (h : i ≠ j) (v : Value) : (s.pushed i v).list j = s.list j := by
  rw [pushed, list_updateList, if_neg fun hij => h hij.1]

theorem Equips.pushed (h : s.Equips w a f) (i : Nat) (v : Value) : (s.pushed i v).Equips w a f where
  attachers := h.attachers
  steps := h.steps
  ne := h.ne
  attachers_lt := by simpa [Store.pushed, updateList] using h.attachers_lt
  steps_lt := by simpa [Store.pushed, updateList] using h.steps_lt
  own := h.own

end Store

namespace Machine
variable {m m' m'' : Machine} {w a f : Nat} {attached attached' steps steps' : List Value}

/-- Whether a ware has got some more attachers and some more steps, and nothing else became of its lists. -/
structure Adds (m m' : Machine) (w a f : Nat) (attached steps : List Value) : Prop where
  equips : m'.store.Equips w a f
  attachers : m'.store.list a = m.store.list a ++ attached
  steps : m'.store.list f = m.store.list f ++ steps

instance (m m' : Machine) (w a f : Nat) (attached steps : List Value) : Decidable (m.Adds m' w a f attached steps) :=
  decidable_of_iff (m'.store.Equips w a f ∧ m'.store.list a = m.store.list a ++ attached ∧
      m'.store.list f = m.store.list f ++ steps)
    ⟨fun ⟨h₁, h₂, h₃⟩ => ⟨h₁, h₂, h₃⟩, fun ⟨h₁, h₂, h₃⟩ => ⟨h₁, h₂, h₃⟩⟩

theorem Adds.trans (h : m.Adds m' w a f attached steps) (h' : m'.Adds m'' w a f attached' steps') :
    m.Adds m'' w a f (attached ++ attached') (steps ++ steps') where
  equips := h'.equips
  attachers := by rw [h'.attachers, h.attachers, List.append_assoc]
  steps := by rw [h'.steps, h.steps, List.append_assoc]

theorem Adds.refl (h : m.store.Equips w a f) : m.Adds m w a f [] [] :=
  ⟨h, (List.append_nil _).symm, (List.append_nil _).symm⟩

/-- The machine after an attacher has been recorded. -/
def recorded (m : Machine) (a : Nat) (v : Value) : Machine := { m with store := m.store.pushed a v }

theorem adds_recorded (h : m.store.Equips w a f) (v : Value) : m.Adds (m.recorded a v) w a f [v] [] where
  equips := h.pushed a v
  attachers := Store.list_pushed_self h.attachers_lt v
  steps := by
    rw [List.append_nil]
    exact Store.list_pushed_of_ne h.ne v

/-- What is done aside adds nothing to a ware. -/
theorem Adds.of_aside (h : m.store.Equips w a f) (haside : Aside m m') : m.Adds m' w a f [] [] where
  equips :=
    { attachers := by rw [haside.runner, h.attachers]
      steps := by rw [haside.runner, h.steps]
      ne := h.ne
      attachers_lt := Nat.lt_of_lt_of_le h.attachers_lt haside.lists.size
      steps_lt := Nat.lt_of_lt_of_le h.steps_lt haside.lists.size
      own := by rw [haside.runner, h.own] }
  attachers := by
    rw [List.append_nil]
    exact congrArg Array.toList (haside.lists.same a h.attachers_lt #[])
  steps := by
    rw [List.append_nil]
    exact congrArg Array.toList (haside.lists.same f h.steps_lt #[])

end Machine

/-- What a piece of work has come to, if it is done. -/
def Outcome.value? {α : Type} : Outcome α → Option α
  | .done v => some v
  | _ => none

namespace Work
variable {m m' : Machine} {w a f : Nat} {v : Value}

/-- What a ware has under a name is read without asking anybody. -/
theorem gives_attr_ware {name : String} (h : m.store.attr? (.ware w) name = some v) : (attr (.ware w) name).Gives m v m := by
  have hmethod : m.store.method (.ware w) name = .ok (.value v []) := by
    have hattr : m.store.attr (.ware w) name = .ok v := by
      rw [Store.attr, h]
    unfold Store.method
    simp only [h, Option.isNone_some, Bool.false_and, Bool.false_eq_true, if_false, hattr]
    rfl
  have hspecial : (special? (.ware w) "__getattribute__").Gives m none m := fun _ => rfl
  have hread : (readValue? (.ware w) name).Gives m none m := fun _ => rfl
  have hfound : (found? (.ware w) name).Gives m (some v) m := by
    refine hread.bind ((gives_store m).bind fun σ => ?_)
    rw [h]
    dsimp only
    rw [hmethod]
    rfl
  refine hspecial.bind fun σ => ?_
  dsimp only
  rw [bind_eq, attempt, hfound σ]
  rfl

theorem gives_context (w : Nat) (m : Machine) :
    (attr (.ware w) "context").Gives m (m.store.runner.ware w).context m := gives_attr_ware rfl

theorem gives_attachers (h : m.store.Equips w a f) : (attr (.ware w) "attachers").Gives m (.list a) m := by
  apply gives_attr_ware
  unfold Store.attr? Store.ownAttr?
  dsimp only
  rw [h.attachers]
  rfl

theorem gives_fns (h : m.store.Equips w a f) : (attr (.ware w) "fns").Gives m (.list f) m := by
  apply gives_attr_ware
  unfold Store.attr? Store.ownAttr?
  dsimp only
  rw [h.steps]
  rfl

/-- A ware registers a step itself. -/
theorem callMethod_use (h : m.store.Equips w a f) (step : Value) (σ : Service) :
    callMethod (.ware w) "use" [step] σ m = σ (.invoke (.ware w "use") [step]) m := by
  have hattr : m.store.attr? (.ware w) "use" = none := by
    unfold Store.attr? Store.ownAttr?
    dsimp only
    rw [h.own]
    rfl
  have hmethod : m.store.method (.ware w) "use" = .ok (.ware w "use") := by
    unfold Store.method
    simp only [hattr, Option.isNone_none, Store.wareMethods, List.contains_eq_mem, List.mem_append, List.mem_cons,
      true_or, decide_true, Bool.true_and, if_true]
  have hspecial : (special? (.ware w) "__getattribute__").Gives m none m := fun _ => rfl
  have haccessor : (accessor? (.ware w) "use" "__get__").Gives m none m := fun _ => rfl
  unfold callMethod
  rw [hspecial.bind_eq, haccessor.bind_eq, (gives_query _ m).bind_eq, hmethod]
  rfl

/-- What is done with what an attacher returned: it is recorded, and the step that it gave is registered. -/
def settleAttacher (w : Nat) (v step : Value) : Work Unit := do
  append (← attr (.ware w) "attachers") v
  if step ≠ .null then
    let _ ← callMethod (.ware w) "use" [step]
    return ()

/-- An attacher is called with the context of the ware, or the ware, and the options. -/
theorem attach_of_isCallable (hv : m.store.isCallable v = true) (options : List Value) (σ : Service) :
    attach w v options σ m =
      ((serve (.call v (m.store.given w :: options) []) : Work Value) >>= settleAttacher w v) σ m := by
  unfold attach
  rw [isCallable, (gives_query _ m).bind_eq, if_pos hv, (gives_context w m).bind_eq]
  rfl

theorem append_attachers (h : m.store.Equips w a f) (v : Value) (g : Unit → Work Unit) (σ : Service) :
    (attr (.ware w) "attachers" >>= fun list => append list v >>= g) σ m = g () σ (m.recorded a v) := by
  rw [(gives_attachers h).bind_eq]
  rfl

theorem settleAttacher_null (h : m.store.Equips w a f) (v : Value) (σ : Service) :
    settleAttacher w v .null σ m = (.done (), m.recorded a v) := append_attachers h v _ σ

theorem settleAttacher_eq (h : m.store.Equips w a f) (v : Value) {step : Value} (hstep : step ≠ .null) (d : Nat) :
    settleAttacher w v step (service (d + 1)) m =
      (useStep w step [] >>= fun _ => pure ()) (service d) (m.recorded a v) := by
  have hinvoke : service (d + 1) (.invoke (.ware w "use") [step]) (m.recorded a v) =
      (useStep w step [] >>= fun _ => pure (.ware w) : Work Value) (service d) (m.recorded a v) := rfl
  refine (append_attachers h v _ _).trans ?_
  rw [if_pos hstep, bind_eq, callMethod_use (Machine.adds_recorded h v).equips, hinvoke, bind_eq, bind_eq]
  rcases useStep w step [] (service d) (m.recorded a v) with ⟨u | e | _, m'⟩ <;> rfl

theorem callee_of_stepOf {σ : Service} {callee : Value} {step : Step} (h : stepOf callee σ m = (.done step, m')) :
    step.callee = callee := by
  obtain ⟨signature, m₁, -, h⟩ := of_bind_done h
  obtain ⟨name, m₂, -, h⟩ := of_bind_done h
  cases signature with
  | none =>
    cases h
    rfl
  | some left =>
    dsimp only at h
    split at h <;>
      · cases h
        rfl

theorem useStep_of_not_isCallable {step : Value} (hstep : m.store.isCallable step = false) (w : Nat) :
    ∃ i m', (useStep w step []).Raises m (.fault i) m' ∧ Aside m m' ∧ (m'.store.fault i).detail = .plain .type := by
  obtain ⟨i, m', hfails, haside, hdetail⟩ := raises_fail (α := PUnit) (.notStep (m.store.typeName step)) m
  refine ⟨i, m', fun σ => ?_, haside, hdetail⟩
  unfold useStep
  rw [isCallable, (gives_query _ m).bind_eq, hstep]
  change (failFor step .notStep >>= _) σ m = _
  rw [bind_eq, failFor, (gives_query _ m).bind_eq, hfails σ]

theorem useStep_of_isCallable {step : Value} (hstep : m.store.isCallable step = true) (w : Nat) (σ : Service) :
    useStep w step [] σ m = (stepOf step >>= putStep w) σ m := by
  unfold useStep
  rw [isCallable, (gives_query _ m).bind_eq, hstep]
  rfl

/-- A step that is put behind the others of a ware has its callable. -/
theorem putStep_adds (h : m.store.Equips w a f) (step : Step) : ∃ m' k, (putStep w step).Gives m () m' ∧
    m.Adds m' w a f [] [.step k] ∧ (m'.store.runner.step k).callee = step.callee := by
  let m' : Machine := { m with store := (m.store.addStep step).2.pushed f (.step m.store.runner.steps.size) }
  have hgives : (putStep w step).Gives m () m' := (gives_fns h).bind fun σ => rfl
  have hequips : (m.store.addStep step).2.Equips w a f := ⟨h.attachers, h.steps, h.ne, h.attachers_lt, h.steps_lt, h.own⟩
  refine ⟨m', m.store.runner.steps.size, hgives, ⟨hequips.pushed f _, ?_, ?_⟩, ?_⟩
  · rw [List.append_nil]
    exact Store.list_pushed_of_ne (s := (m.store.addStep step).2) (Ne.symm h.ne) _
  · exact Store.list_pushed_self (s := (m.store.addStep step).2) h.steps_lt _
  · show ((m.store.runner.steps.push step).getD m.store.runner.steps.size default).callee = step.callee
    simp

/-! ### What it comes to -/

/-- Whether a value is neither callable nor iterable. -/
def Inert (s : Store) (v : Value) : Prop :=
  s.isCallable v = false ∧ s.elements? v = none ∧ v.isText = false ∧ (∀ i, v ≠ .future i) ∧
    ∀ x, s.instance? v = some x → s.typeAttr? x.type "__iter__" = none ∧ s.typeAttr? x.type "__getitem__" = none

/-- Whether an attacher adds to its ware and does no more to it, be it called or be the step described that it returns. -/
structure Adding (depth w a f : Nat) (options : List Value) (m : Machine) (v : Value) : Prop where
  callable : m.store.isCallable v = true
  calls : ∃ attached steps,
    m.Adds (service (depth + 1) (.call v (m.store.given w :: options) []) m).2 w a f attached steps
  describes : ∀ {step m₁}, service (depth + 1) (.call v (m.store.given w :: options) []) m = (.done step, m₁) →
    m₁.store.isCallable step = true →
    (m₁.recorded a v).Adds (stepOf step (service depth) (m₁.recorded a v)).2 w a f [] []

/-- One call of an attacher tells whether it adds to its ware and does no more to it. -/
theorem adding_of_call {depth : Nat} {options : List Value} {called : Outcome Value × Machine}
    (hcalled : service (depth + 1) (.call v (m.store.given w :: options) []) m = called)
    (hcallable : m.store.isCallable v = true) (attached steps : List Value) (hadds : m.Adds called.2 w a f attached steps)
    (hdescribes : ∀ step ∈ called.1.value?,
      (called.2.recorded a v).Adds (stepOf step (service depth) (called.2.recorded a v)).2 w a f [] []) :
    Adding depth w a f options m v where
  callable := hcallable
  calls := ⟨attached, steps, by rw [hcalled]; exact hadds⟩
  describes := by
    intro step m₁ hdone _
    cases hcalled.symm.trans hdone
    exact hdescribes step rfl

/-- What attaching a leaf comes to, and which attachers and steps its ware has got by it. -/
inductive Applied (depth w a f : Nat) (options : List Value) (m : Machine) (v : Value) :
    Outcome Unit × Machine → List Value → List Value → Prop
  /-- What can neither be called nor be gone through is refused with an error of a type. -/
  | inert {i m'} (inert : Inert m.store v) (type : (m'.store.fault i).detail = .plain .type)
      (adds : m.Adds m' w a f [] []) : Applied depth w a f options m v (.raised (.fault i), m') [] []
  /-- An attacher fails, and is not recorded. -/
  | fails {e m₁ attached steps}
      (call : service (depth + 1) (.call v (m.store.given w :: options) []) m = (.raised e, m₁))
      (adds : m.Adds m₁ w a f attached steps) : Applied depth w a f options m v (.raised e, m₁) attached steps
  | spends {m₁ attached steps}
      (call : service (depth + 1) (.call v (m.store.given w :: options) []) m = (.spent, m₁))
      (adds : m.Adds m₁ w a f attached steps) : Applied depth w a f options m v (.spent, m₁) attached steps
  /-- It gives no step, and is recorded behind those that it attached itself. -/
  | silent {m₁ attached steps}
      (call : service (depth + 1) (.call v (m.store.given w :: options) []) m = (.done .null, m₁))
      (own : m.Adds m₁ w a f attached steps) (adds : m.Adds (m₁.recorded a v) w a f (attached ++ [v]) steps) :
      Applied depth w a f options m v (.done (), m₁.recorded a v) (attached ++ [v]) steps
  /-- It gives something that is no step: it is recorded, nothing is registered, and an error of a type is raised. -/
  | refused {step m₁ m' i attached steps}
      (call : service (depth + 1) (.call v (m.store.given w :: options) []) m = (.done step, m₁)) (given : step ≠ .null)
      (callable : m₁.store.isCallable step = false) (own : m.Adds m₁ w a f attached steps)
      (adds : m.Adds m' w a f (attached ++ [v]) steps) (type : (m'.store.fault i).detail = .plain .type) :
      Applied depth w a f options m v (.raised (.fault i), m') (attached ++ [v]) steps
  /-- It gives a step, which is registered behind those that it registered itself. -/
  | registered {step m₁ m' k attached steps}
      (call : service (depth + 1) (.call v (m.store.given w :: options) []) m = (.done step, m₁)) (given : step ≠ .null)
      (callable : m₁.store.isCallable step = true) (own : m.Adds m₁ w a f attached steps)
      (adds : m.Adds m' w a f (attached ++ [v]) (steps ++ [.step k]))
      (callee : (m'.store.runner.step k).callee = step) :
      Applied depth w a f options m v (.done (), m') (attached ++ [v]) (steps ++ [.step k])
  /-- It gives a step that cannot be described: it is recorded, and nothing is registered. -/
  | undescribed {step m₁ m' out attached steps}
      (call : service (depth + 1) (.call v (m.store.given w :: options) []) m = (.done step, m₁)) (given : step ≠ .null)
      (callable : m₁.store.isCallable step = true) (own : m.Adds m₁ w a f attached steps)
      (describe : ∀ s, (stepOf step (service depth) (m₁.recorded a v)).1 ≠ .done s) (fails : out ≠ .done ())
      (adds : m.Adds m' w a f (attached ++ [v]) steps) :
      Applied depth w a f options m v (out, m') (attached ++ [v]) steps

variable {depth : Nat} {options : List Value}

theorem Applied.adds {out : Outcome Unit × Machine} {attached steps : List Value}
    (h : Applied depth w a f options m v out attached steps) : m.Adds out.2 w a f attached steps := by
  cases h with
  | inert _ _ adds => exact adds
  | fails _ adds => exact adds
  | spends _ adds => exact adds
  | silent _ _ adds => exact adds
  | refused _ _ _ _ adds _ => exact adds
  | registered _ _ _ _ adds _ => exact adds
  | undescribed _ _ _ _ _ _ adds => exact adds

/-- To attach what is neither callable nor iterable fails at once. -/
theorem raises_attach_of_inert (h : Inert m.store v) (w : Nat) (options : List Value) :
    ∃ i m', (attach w v options).Raises m (.fault i) m' ∧ Aside m m' ∧ (m'.store.fault i).detail = .plain .type := by
  obtain ⟨hcallable, helements, htext, hfuture, hspecials⟩ := h
  obtain ⟨i, m', hfails, haside, hdetail⟩ := raises_fail (α := Unit) (.notIterable (m.store.typeName v)) m
  have hspecial {name : String} (hname : name = "__iter__" ∨ name = "__getitem__") : (special? v name).Gives m none m := by
    refine (gives_store m).bind fun σ => ?_
    cases hinstance : m.store.instance? v with
    | none => rfl
    | some x =>
      have hnone : m.store.typeAttr? x.type name = none := by
        obtain ⟨hiter, hitem⟩ := hspecials x hinstance
        rcases hname with rfl | rfl
        · exact hiter
        · exact hitem
      dsimp only
      rw [hnone]
      rfl
  have hby (σ : Service) : attachBy w options v σ m = (.raised (.fault i), m') := by
    unfold attachBy
    rw [(hspecial (.inl rfl)).bind_eq]
    dsimp only
    rw [(hspecial (.inr rfl)).bind_eq]
    dsimp only
    rw [failFor, (gives_query _ m).bind_eq, hfails σ]
  refine ⟨i, m', fun σ => ?_, haside, hdetail⟩
  have hnot : ¬ m.store.isCallable v = true := by rw [hcallable]; exact Bool.false_ne_true
  unfold attach
  rw [isCallable, (gives_query _ m).bind_eq, if_neg hnot, (gives_query _ m).bind_eq, helements]
  cases v with
  | future i => exact absurd rfl (hfuture i)
  | _ => exact hby _

theorem applied_of_inert (hequips : m.store.Equips w a f) (h : Inert m.store v) :
    Applied depth w a f options m v (service (depth + 2) (.attach w v options) m) [] [] := by
  obtain ⟨i, m', hraises, haside, hdetail⟩ := raises_attach_of_inert h w options
  have hrun : service (depth + 2) (.attach w v options) m = (.raised (.fault i), m') := hraises (service (depth + 1))
  rw [hrun]
  exact .inert h hdetail (.of_aside hequips haside)

/-- What becomes of what an attacher returned, if that is not nothing. -/
theorem applied_of_given {step : Value} {m₁ : Machine} {attached steps : List Value}
    (hcall : service (depth + 1) (.call v (m.store.given w :: options) []) m = (.done step, m₁)) (hstep : step ≠ .null)
    (hown : m.Adds m₁ w a f attached steps)
    (hdescribes : m₁.store.isCallable step = true →
      (m₁.recorded a v).Adds (stepOf step (service depth) (m₁.recorded a v)).2 w a f [] []) : ∃ attached' steps',
    Applied depth w a f options m v (settleAttacher w v step (service (depth + 1)) m₁) attached' steps' := by
  have hrecorded := Machine.adds_recorded hown.equips v
  have hsame : (m₁.recorded a v).store.isCallable step = m₁.store.isCallable step := rfl
  rw [settleAttacher_eq hown.equips v hstep depth, bind_eq]
  -- The attacher has been recorded before what it gave is found not to be callable, or cannot be described.
  cases hcallable : m₁.store.isCallable step with
  | false =>
    obtain ⟨i, m', hraises, haside, hdetail⟩ := useStep_of_not_isCallable (hsame.trans hcallable) w
    have hadds := (hown.trans hrecorded).trans (Machine.Adds.of_aside hrecorded.equips haside)
    rw [List.append_nil, List.append_nil, List.append_nil] at hadds
    rw [hraises]
    exact ⟨_, _, .refused hcall hstep hcallable hown hadds hdetail⟩
  | true =>
    have hafter := (hown.trans hrecorded).trans (hdescribes hcallable)
    rw [List.append_nil, List.append_nil, List.append_nil] at hafter
    rw [useStep_of_isCallable (hsame.trans hcallable), bind_eq]
    rcases hdescribed : stepOf step (service depth) (m₁.recorded a v) with ⟨s | e | _, m₂⟩
    · rw [hdescribed] at hafter
      obtain ⟨m', k, hput, hadds, hcallee⟩ := putStep_adds hafter.equips s
      have hall := hafter.trans hadds
      rw [List.append_nil] at hall
      dsimp only
      rw [hput]
      exact ⟨_, _, .registered hcall hstep hcallable hown hall (hcallee.trans (callee_of_stepOf hdescribed))⟩
    · have hnone : ∀ s, (stepOf step (service depth) (m₁.recorded a v)).1 ≠ .done s := by
        intro s hs
        rw [hdescribed] at hs
        cases hs
      have hfails : (.raised e : Outcome Unit) ≠ .done () := nofun
      rw [hdescribed] at hafter
      exact ⟨_, _, .undescribed hcall hstep hcallable hown hnone hfails hafter⟩
    · have hnone : ∀ s, (stepOf step (service depth) (m₁.recorded a v)).1 ≠ .done s := by
        intro s hs
        rw [hdescribed] at hs
        cases hs
      have hfails : (.spent : Outcome Unit) ≠ .done () := nofun
      rw [hdescribed] at hafter
      exact ⟨_, _, .undescribed hcall hstep hcallable hown hnone hfails hafter⟩

/-- To attach an attacher that adds to its ware and does no more to it comes to one of these. -/
theorem applied_of_adding (h : Adding depth w a f options m v) : ∃ attached steps,
    Applied depth w a f options m v (service (depth + 2) (.attach w v options) m) attached steps := by
  have hattach : service (depth + 2) (.attach w v options) m =
      ((serve (.call v (m.store.given w :: options) []) : Work Value) >>= settleAttacher w v) (service (depth + 1)) m :=
    attach_of_isCallable h.callable options _
  obtain ⟨attached, steps, hown⟩ := h.calls
  have hdescribes := @h.describes
  rw [hattach.trans (bind_eq (α := Value) _ _ _ _), serve]
  rcases hcall : service (depth + 1) (.call v (m.store.given w :: options) []) m with ⟨step | e | _, m₁⟩
  · rw [hcall] at hown
    have hrecorded := hown.trans (Machine.adds_recorded hown.equips v)
    rw [List.append_nil] at hrecorded
    by_cases hstep : step = .null
    · subst hstep
      refine ⟨attached ++ [v], steps, ?_⟩
      show Applied depth w a f options m v (settleAttacher w v .null (service (depth + 1)) m₁) (attached ++ [v]) steps
      rw [settleAttacher_null hown.equips]
      exact .silent hcall hown hrecorded
    · exact applied_of_given hcall hstep hown fun hcallable => hdescribes hcall hcallable
  · rw [hcall] at hown
    exact ⟨_, _, .fails hcall hown⟩
  · rw [hcall] at hown
    exact ⟨_, _, .spends hcall hown⟩

end Work
end Treeworks
