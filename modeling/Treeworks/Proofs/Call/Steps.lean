import Treeworks.Proofs.Call.Fit
import Treeworks.Proofs.Slot.Calls

/-! What a registered step is called with. The counts of a step are read off the parameters that are left after leading
arguments; the runner gives it as many inputs as these parameters take, and its continuation where they ask for more.
Through functions with leading arguments fixed the call comes to a function of a script, which takes it if it fits. -/
namespace Treeworks

namespace Signature
variable {α : Type} {sig left : Signature}

theorem binds_iff (args : List α) (keywords : Table α) :
    sig.Binds args keywords ↔ sig.misfit? args.length keywords.keys = none := by
  unfold Binds bind
  cases sig.misfit? args.length keywords.keys <;> simp

end Signature

/-- The keyword arguments of a step that is given a context. -/
def givenKeywords (context : Option Value) : Table Value := (context.map fun v => ("processor", v)).toList

namespace Step
variable {step : Step} {left : Signature} {inputs : List Value}

/-- Whether a step has the counts of a parameter list. Where further arguments are collected there are none. -/
structure Counts (step : Step) (left : Signature) : Prop where
  required : step.required = if left.hasRest then none else some left.required
  accepted : step.accepted = if left.hasRest then none else some left.accepted
  takesContext : step.takesContext = left.hasKeyword "processor"

/-- The context that a step is given. -/
def given (step : Step) (context : Value) : Option Value := if step.takesContext then some context else none

theorem Counts.keys (h : step.Counts left) (context : Value) :
    (givenKeywords (step.given context)).keys = left.contextKeywords "processor" := by
  unfold given givenKeywords Signature.contextKeywords
  rw [h.takesContext]
  cases left.hasKeyword "processor" <;> rfl

section
variable (h : step.Counts left) (hrest : left.hasRest = false) (ticket : Nat)
include h hrest

theorem Counts.takesNext_iff (n : Nat) : step.takesNext n = true ↔ n < left.required := by
  simp [takesNext, h.required, hrest]

theorem Counts.arguments_eq : Runner.argumentsOf step inputs ticket =
    if inputs.length < left.required then inputs ++ [.next ticket]
    else inputs.take (min left.accepted inputs.length) := by
  unfold Runner.argumentsOf
  by_cases hnext : inputs.length < left.required
  · rw [if_pos hnext, if_pos ((h.takesNext_iff hrest _).mpr hnext)]
  · have htakes : ¬ step.takesNext inputs.length = true := fun htakes => hnext ((h.takesNext_iff hrest _).mp htakes)
    rw [if_neg hnext, if_neg htakes, arguments, h.accepted, hrest]
    simp [List.take_eq_take_iff]

/-- The call of a step fits unless it requires more than the inputs and its continuation. -/
theorem Counts.binds_iff (hwell : left.WellFormed) (hdemands : left.Demands "processor") (context : Value) :
    left.Binds (Runner.argumentsOf step inputs ticket) (givenKeywords (step.given context)) ↔
      left.required ≤ inputs.length + 1 := by
  have hmost := left.required_le_accepted
  rw [Signature.binds_iff, h.keys, Signature.misfit?_contextKeywords hwell hdemands, hrest, h.arguments_eq hrest]
  split <;> simp <;> omega

end

/-- A step that collects its inputs is given them all, and never its continuation. -/
theorem Counts.arguments_of_hasRest (h : step.Counts left) (hrest : left.hasRest = true) (ticket : Nat) :
    step.takesNext inputs.length = false ∧ Runner.argumentsOf step inputs ticket = inputs := by
  have hnext : step.takesNext inputs.length = false := by simp [takesNext, h.required, hrest]
  refine ⟨hnext, ?_⟩
  unfold Runner.argumentsOf arguments
  rw [hnext, h.accepted, hrest]
  rfl

theorem Counts.binds_iff_of_hasRest (h : step.Counts left) (hrest : left.hasRest = true) (ticket : Nat)
    (hwell : left.WellFormed) (hdemands : left.Demands "processor") (context : Value) :
    left.Binds (Runner.argumentsOf step inputs ticket) (givenKeywords (step.given context)) ↔
      left.required ≤ inputs.length := by
  rw [Signature.binds_iff, h.keys, Signature.misfit?_contextKeywords hwell hdemands, hrest,
    (h.arguments_of_hasRest hrest ticket).2]
  simp

end Step

/-! ### Callables that lead to a function of a script -/

/-- Whether a function says nothing of its own about its parameters. -/
def Store.Frank (s : Store) (j : Nat) : Prop :=
  s.attr? (.function j) "__signature__" = none ∧ s.attr? (.function j) "__wrapped__" = none

/-- Whether calls of a value come to a function of a script after so many more calls, with some arguments in front:
through functions with leading arguments fixed, the outer ones behind the inner ones, and through methods. -/
inductive Store.Leads (s : Store) (f : Nat) (sig : Signature) : Value → Nat → List Value → Prop
  | script {name kind asynchronous quiet body} (hfunction : s.function f = .script name sig kind asynchronous quiet body)
      (hlt : f < s.functions.size) (hfrank : s.Frank f) (hreadable : kind ≠ .unreadable) :
      Leads s f sig (.function f) 0 []
  | fixed {j t k target hops bound} (hfunction : s.function j = .fixed target (.tuple t) (.dict k))
      (hlt : j < s.functions.size) (htuple : t < s.tuples.size) (hdict : k < s.dicts.size) (hkeywords : s.dict k = [])
      (hfrank : s.Frank j) (hrest : Leads s f sig target hops bound) :
      Leads s f sig (.function j) (hops + 1) (bound ++ s.tuple t)
  | method {j label callee object hops bound} (hfunction : s.function j = .bound label (.value callee [object]))
      (hlt : j < s.functions.size) (hfrank : s.Frank j) (hrest : Leads s f sig callee hops bound) :
      Leads s f sig (.function j) (hops + 1) (bound ++ [object])

namespace Store
variable {s : Store} {f hops : Nat} {sig left : Signature} {v : Value} {bound : List Value}

theorem innermost?_of_frank {j : Nat} (h : s.Frank j) (fuel : Nat) :
    s.innermost? (fuel + 1) (.function j) = some (.function j) := by
  unfold innermost?
  rw [h.1, h.2]

/-- The parameters of such a callable are those that are left after the arguments in front. -/
theorem Leads.signatureAt?_eq (h : s.Leads f sig v hops bound) {fuel : Nat} (hfuel : hops < fuel) :
    s.signatureAt? fuel v = Signature.afterLeading bound.length sig := by
  induction h generalizing fuel with
  | @script _ kind _ _ _ hfunction hlt hfrank hreadable =>
    obtain ⟨fuel, rfl⟩ := Nat.exists_eq_succ_of_ne_zero (Nat.ne_of_gt hfuel)
    unfold signatureAt?
    rw [innermost?_of_frank hfrank]
    simp only [hfrank.1, hfunction, Option.any_none, Bool.false_eq_true, if_false]
    cases kind with
    | unreadable => exact absurd rfl hreadable
    | plain => rfl
    | object => rfl
  | @fixed j t k target hops bound hfunction hlt htuple hdict hkeywords hfrank hrest ih =>
    obtain ⟨fuel, rfl⟩ := Nat.exists_eq_succ_of_ne_zero (Nat.ne_of_gt (Nat.lt_of_le_of_lt (Nat.zero_le _) hfuel))
    have hnames : s.keywordNames (.dict k) = [] := by simp [keywordNames, mapping?, hkeywords]
    unfold signatureAt?
    rw [innermost?_of_frank hfrank]
    simp only [hfrank.1, hfunction, Option.any_none, Bool.false_eq_true, if_false, hnames, Signature.afterFixed_nil]
    rw [List.length_append, Signature.afterLeading_add, ih (Nat.lt_of_succ_lt_succ hfuel)]
    rfl
  | @method j label callee object hops bound hfunction hlt hfrank hrest ih =>
    obtain ⟨fuel, rfl⟩ := Nat.exists_eq_succ_of_ne_zero (Nat.ne_of_gt (Nat.lt_of_le_of_lt (Nat.zero_le _) hfuel))
    unfold signatureAt?
    rw [innermost?_of_frank hfrank]
    simp only [hfrank.1, hfunction, Option.any_none, Bool.false_eq_true, if_false]
    rw [List.length_append, Signature.afterLeading_add, ih (Nat.lt_of_succ_lt_succ hfuel)]
    exact congrArg _ (funext Signature.afterFirst_eq)

/-- The function that is led to is one of a script. -/
theorem Leads.base (h : s.Leads f sig v hops bound) : s.Leads f sig (.function f) 0 [] := by
  induction h with
  | script hfunction hlt hfrank hreadable => exact .script hfunction hlt hfrank hreadable
  | fixed _ _ _ _ _ _ _ ih => exact ih
  | method _ _ _ _ ih => exact ih

/-- Parameters that can be read are reached. -/
theorem Leads.hops_lt (h : s.Leads f sig v hops bound) {fuel : Nat} (hread : (s.signatureAt? fuel v).isSome = true) :
    hops < fuel := by
  induction h generalizing fuel with
  | script =>
    cases fuel with
    | zero => cases hread
    | succ fuel => exact Nat.succ_pos fuel
  | fixed hfunction hlt htuple hdict hkeywords hfrank hrest ih =>
    cases fuel with
    | zero => cases hread
    | succ fuel =>
      unfold signatureAt? at hread
      rw [innermost?_of_frank hfrank] at hread
      simp only [hfrank.1, hfunction, Option.any_none, Bool.false_eq_true, if_false] at hread
      exact Nat.succ_lt_succ (ih (Option.isSome_of_isSome_bind hread))
  | method hfunction hlt hfrank hrest ih =>
    cases fuel with
    | zero => cases hread
    | succ fuel =>
      unfold signatureAt? at hread
      rw [innermost?_of_frank hfrank] at hread
      simp only [hfrank.1, hfunction, Option.any_none, Bool.false_eq_true, if_false] at hread
      exact Nat.succ_lt_succ (ih (Option.isSome_of_isSome_bind hread))

/-- What grows behind the functions that are there changes nothing about where they lead. -/
theorem Leads.mono {s' : Store} (h : s.Leads f sig v hops bound) (hfunctions : Grows s.functions s'.functions)
    (htuples : Grows s.tuples s'.tuples) (hdicts : Grows s.dicts s'.dicts)
    (hattrs : ∀ j, s'.functionAttrs.getD j [] = s.functionAttrs.getD j []) : s'.Leads f sig v hops bound := by
  have hsame (j : Nat) (hj : j < s.functions.size) : s'.function j = s.function j := hfunctions.same j hj default
  have hfrank {j : Nat} (hj : j < s.functions.size) (h : s.Frank j) : s'.Frank j := by
    have hattr (name : String) (hclass : name ≠ "__class__") :
        s'.attr? (.function j) name = s.attr? (.function j) name := by
      unfold attr? ownAttr? functionAttr functionAttr?
      dsimp only
      rw [hsame j hj, hattrs, if_neg hclass, if_neg hclass]
    exact ⟨(hattr _ (by decide)).trans h.1, (hattr _ (by decide)).trans h.2⟩
  induction h with
  | script hfunction hlt hfrank' hreadable =>
    exact .script ((hsame _ hlt).trans hfunction) (Nat.lt_of_lt_of_le hlt hfunctions.size) (hfrank hlt hfrank') hreadable
  | fixed hfunction hlt htuple hdict hkeywords hfrank' hrest ih =>
    have htuple' := htuples.same _ htuple []
    have hrest' := Leads.fixed ((hsame _ hlt).trans hfunction) (Nat.lt_of_lt_of_le hlt hfunctions.size)
      (Nat.lt_of_lt_of_le htuple htuples.size) (Nat.lt_of_lt_of_le hdict hdicts.size)
      ((hdicts.same _ hdict []).trans hkeywords) (hfrank hlt hfrank') ih
    unfold tuple at hrest' ⊢
    rwa [htuple'] at hrest'
  | method hfunction hlt hfrank' hrest ih =>
    exact .method ((hsame _ hlt).trans hfunction) (Nat.lt_of_lt_of_le hlt hfunctions.size) (hfrank hlt hfrank') ih

/-- A callable as it is registered, with any arguments fixed in front. -/
def registered (s : Store) (callee : Value) (bound : List Value) : Value × Store :=
  if bound.isEmpty then (callee, s) else s.fix callee bound

/-- The store with a new function that fixes arguments of a callable. -/
def withPartial (s : Store) (target : Value) (leading : List Value) : Store :=
  { s with
    tuples := s.tuples.push leading
    dicts := s.dicts.push []
    functions := s.functions.push (.fixed target (.tuple s.tuples.size) (.dict s.dicts.size))
    functionAttrs := s.functionAttrs.push [] }

/-- What is stored on functions is stored on ones that are there. -/
def AttrsInPlace (s : Store) : Prop := s.functionAttrs.size ≤ s.functions.size

theorem functionAttrs_push (s : Store) (j : Nat) :
    (s.functionAttrs.push []).getD j [] = s.functionAttrs.getD j [] := by
  simp only [Array.getD_eq_getD_getElem?, Array.getElem?_push]
  split
  · rename_i hj
    subst hj
    simp
  · rfl

/-- A new function that fixes arguments leads where its target leads. -/
theorem Leads.withPartial (h : s.Leads f sig v hops bound) (hattrs : s.AttrsInPlace) (leading : List Value) :
    (s.withPartial v leading).Leads f sig (.function s.functions.size) (hops + 1) (bound ++ leading) := by
  have hlast {α : Type} (xs : Array α) (x d : α) : (xs.push x).getD xs.size d = x := by simp
  have hgrown : (s.withPartial v leading).Leads f sig v hops bound :=
    h.mono (.push _ _) (.push _ _) (.push _ _) (functionAttrs_push s)
  have hfunction : (s.withPartial v leading).function s.functions.size =
      .fixed v (.tuple s.tuples.size) (.dict s.dicts.size) := hlast _ _ _
  have hnone : (s.withPartial v leading).functionAttrs.getD s.functions.size [] = [] :=
    (functionAttrs_push s _).trans (by simp [Array.getElem?_eq_none hattrs])
  have hfrank : (s.withPartial v leading).Frank s.functions.size := by
    constructor <;>
      · unfold attr? ownAttr? functionAttr functionAttr?
        dsimp only
        rw [hnone, hfunction]
        rfl
  have htuple : (s.withPartial v leading).tuple s.tuples.size = leading := hlast _ _ _
  have hfixed := Leads.fixed hfunction (by simp [Store.withPartial]) (by simp [Store.withPartial])
    (by simp [Store.withPartial]) (hlast _ _ _) hfrank hgrown
  rwa [htuple] at hfixed

theorem fix_add (s : Store) (target : Value) {leading : List Value} (h : leading ≠ []) :
    (let (new, s₁) := s.addTuple leading
     let (keywords, s₂) := s₁.addDict []
     s₂.addFunction (.fixed target new keywords)) = (.function s.functions.size, s.withPartial target leading) := by
  unfold addTuple
  rw [if_neg (by simpa using h)]
  rfl

theorem size_withPartial (s : Store) (target : Value) (leading : List Value) (n : Nat) :
    n + 1 + s.functions.size ≤ n + (s.withPartial target leading).functions.size := by
  simp only [withPartial, Array.size_push]
  omega

/-- Arguments that are fixed in front come behind those that are fixed already. -/
theorem Leads.registered (h : s.Leads f sig v hops bound) (hattrs : s.AttrsInPlace) (more : List Value) :
    ∃ hops', (s.registered v more).2.Leads f sig (s.registered v more).1 hops' (bound ++ more) ∧
      hops' + s.functions.size ≤ hops + (s.registered v more).2.functions.size := by
  unfold Store.registered
  by_cases hmore : more = []
  · subst hmore
    exact ⟨hops, by simpa using h, Nat.le_refl _⟩
  · rw [if_neg (by simpa using hmore)]
    have hnew := h.withPartial hattrs more
    have hadd := fix_add s v hmore
    unfold Store.fix
    cases h with
    | script hfunction hlt hfrank hreadable =>
      dsimp only at hadd ⊢
      rw [hfunction, hadd]
      exact ⟨_, hnew, size_withPartial s _ more _⟩
    | method hfunction hlt hfrank hrest =>
      dsimp only at hadd ⊢
      rw [hfunction, hadd]
      exact ⟨_, hnew, size_withPartial s _ more _⟩
    | @fixed j t k target hops bound hfunction hlt htuple hdict hkeywords hfrank hrest =>
      have hmore' : s.tuple t ++ more ≠ [] := by simp [hmore]
      have hadd' := fix_add s target hmore'
      dsimp only at hadd hadd' ⊢
      rw [hfunction]
      cases (s.functionAttrs.getD j []).isEmpty with
      | false =>
        dsimp only
        rw [hadd]
        exact ⟨_, hnew, size_withPartial s _ more _⟩
      | true =>
        simp only [mapping?, hkeywords, elements?, Option.getD_some]
        rw [hadd', List.append_assoc]
        refine ⟨_, hrest.withPartial hattrs _, Nat.le_trans (size_withPartial s target (s.tuple t ++ more) hops) ?_⟩
        exact Nat.add_le_add_right (Nat.le_succ hops) _

end Store

namespace Work
variable {f hops : Nat} {sig left : Signature} {v : Value} {bound : List Value}

/-- A call of a value that leads to a function is a call of that function, with the arguments in front. -/
theorem call_leads {m : Machine} (h : m.store.Leads f sig v hops bound) (depth : Nat) (args : List Value)
    (context : Option Value) : service (depth + hops) (.call v args (givenKeywords context)) m =
      service depth (.call (.function f) (bound ++ args) (givenKeywords context)) m := by
  induction h generalizing args with
  | script => rfl
  | @fixed j t k target hops bound hfunction hlt htuple hdict hkeywords hfrank hrest ih =>
    rw [List.append_assoc, ← ih (m.store.tuple t ++ args)]
    have hkept : Table.merge [] (givenKeywords context) = givenKeywords context := by cases context <;> rfl
    show Work.call (.function j) args (givenKeywords context) (service (depth + hops)) m = _
    have hasked : (query (·.function j)).Gives m (.fixed target (.tuple t) (.dict k)) m := by
      rw [← hfunction]
      exact gives_query _ m
    have hfixed : (withFixed (.dict k) (givenKeywords context)).Gives m (givenKeywords context) m := by
      refine (gives_query _ m).bind fun σ => ?_
      simp only [Store.mapping?, hkeywords, Option.getD_some]
      exact congrArg (fun t => (Outcome.done t, m)) hkept
    unfold Work.call
    dsimp only
    rw [hasked.bind_eq]
    dsimp only
    rw [(gives_query _ m).bind_eq]
    exact hfixed.bind_eq (fun keywords => (serve (.call target (m.store.tuple t ++ args) keywords) : Work Value)) _
  | @method j label callee object hops bound hfunction hlt hfrank hrest ih =>
    rw [List.append_assoc, ← ih ([object] ++ args)]
    show Work.call (.function j) args (givenKeywords context) (service (depth + hops)) m = _
    have hasked : (query (·.function j)).Gives m (.bound label (.value callee [object])) m := by
      rw [← hfunction]
      exact gives_query _ m
    unfold Work.call
    dsimp only
    rw [hasked.bind_eq]
    rfl

/-- Arguments that do not fit fail the call of a function of a script with an error of its type. -/
theorem call_misfit {m : Machine} (h : m.store.Leads f sig (.function f) 0 []) {args : List Value}
    {keywords : Table Value} (hmisfit : ¬ sig.Binds args keywords) (depth : Nat) :
    ∃ i m', service (depth + 1) (.call (.function f) args keywords) m = (.raised (.fault i), m') ∧
      (m'.store.fault i).detail = .plain .type := by
  obtain ⟨misfit, hbind⟩ : ∃ misfit, sig.bind args keywords = .error misfit := by
    cases hbind : sig.bind args keywords with
    | error misfit => exact ⟨misfit, rfl⟩
    | ok bound => exact absurd ⟨bound, hbind⟩ hmisfit
  cases h with
  | @script name kind asynchronous quiet body hfunction hlt hfrank hreadable =>
    obtain ⟨i, m', hfails, -, hdetail⟩ := raises_fail (α := Value) (.misfit name misfit) m
    refine ⟨i, m', ?_, hdetail⟩
    show Work.call (.function f) args keywords (service depth) m = _
    unfold Work.call
    dsimp only
    rw [(gives_query _ m).bind_eq, hfunction]
    dsimp only
    unfold callScript
    rw [hbind]
    exact hfails _

/-- What a step is made of. -/
theorem stepOf_done {m m' : Machine} {σ : Service} {step : Step} (h : stepOf v σ m = (.done step, m'))
    (hleft : m.store.signature? v = some left) : step.callee = v ∧ step.Counts left := by
  obtain ⟨signature, m₁, hsignature, h⟩ := of_bind_done h
  cases hsignature
  obtain ⟨name, m₂, -, h⟩ := of_bind_done h
  dsimp only at h
  rw [hleft] at h
  dsimp only at h
  cases hrest : left.hasRest <;>
    · rw [hrest] at h
      cases h
      exact ⟨rfl, by simp [hrest], by simp [hrest], rfl⟩

/-- Puts a step behind the other steps of a ware. -/
def putStep (ware : Nat) (step : Step) : Work Unit := do
  append (← attr (.ware ware) "fns") (← make fun s => s.addStep step)

/-- A callable that is registered becomes the last step of its ware, with the counts of what is left of its
parameters. -/
theorem useStep_done {m m' : Machine} {σ : Service} {ware : Nat} {callee : Value} {u : Unit}
    (h : useStep ware callee bound σ m = (.done u, m'))
    (hleft : (m.store.registered callee bound).2.signature? (m.store.registered callee bound).1 = some left) :
    ∃ step m₁, putStep ware step σ m₁ = (.done u, m') ∧ step.callee = (m.store.registered callee bound).1 ∧
      step.Counts left := by
  unfold useStep at h
  obtain ⟨called, m₁, hcalled, h⟩ := of_bind_done h
  cases hcalled
  unfold Store.registered at hleft ⊢
  cases hcallable : m.store.isCallable callee with
  | false =>
    simp only [hcallable] at h
    obtain ⟨_, _, hfails, -⟩ := of_bind_done h
    cases hfails
  | true =>
    simp only [hcallable, Bool.not_true, Bool.false_eq_true, if_false] at h
    by_cases hbound : bound.isEmpty = true
    · rw [if_pos hbound] at h hleft ⊢
      obtain ⟨step, m₂, hstep, h⟩ := of_bind_done h
      obtain ⟨hcallee, hcounts⟩ := stepOf_done hstep hleft
      exact ⟨step, m₂, h, hcallee, hcounts⟩
    · rw [if_neg hbound] at h hleft ⊢
      obtain ⟨new, m₂, hnew, h⟩ := of_bind_done h
      cases hnew
      obtain ⟨step, m₃, hstep, h⟩ := of_bind_done h
      obtain ⟨hcallee, hcounts⟩ := stepOf_done hstep hleft
      obtain ⟨name, m₄, -, h⟩ := of_bind_done h
      exact ⟨{ step with name := name }, m₄, h, hcallee, ⟨hcounts.required, hcounts.accepted, hcounts.takesContext⟩⟩

/-- What is bound by a call through arguments in front is what is bound by the other arguments alone, as far as it
fits. -/
theorem binds_afterLeading {args : List Value} {context : Value} {step : Step}
    (hafter : Signature.afterLeading bound.length sig = some left) (hsig : sig.WellFormed)
    (hdemands : sig.Demands "processor") (hcounts : step.Counts left) :
    sig.Binds (bound ++ args) (givenKeywords (step.given context)) ↔
      left.Binds args (givenKeywords (step.given context)) := by
  have hkeywords : sig.contextKeywords "processor" = left.contextKeywords "processor" := by
    unfold Signature.contextKeywords
    rw [Signature.hasKeyword_afterLeading hafter]
  rw [Signature.binds_iff, Signature.binds_iff, hcounts.keys, List.length_append, ← hkeywords,
    Signature.misfit?_afterLeading hafter hsig hdemands, hkeywords]

/-- A parameter for the context holds it in every call that fits. -/
theorem context_mem_of_bind {args : List Value} {context : Value} {step : Step} {held : List (String × Bound Value)}
    (hasks : sig.hasKeyword "processor" = true) (htakes : step.takesContext = true)
    (hbind : sig.bind args (givenKeywords (step.given context)) = .ok held) : ("processor", .one context) ∈ held := by
  unfold Signature.bind at hbind
  split at hbind
  · cases hbind
  · cases hbind
    refine Signature.named_mem_fill ?_ hasks _
    rw [Step.given, htakes]
    rfl

end Work

/-- A machine with a ware and a function of a script. -/
def Machine.bench (sig : Signature) : Machine :=
  { (default : Machine) with
    store := { (default : Store) with
      lists := #[#[]]
      functions := #[.script "f" sig .plain false false []]
      functionAttrs := #[[]]
      runner := { (default : Runner) with wares := #[{ (default : Ware) with steps := .list 0 }] } } }

/-- How the runner calls a step whose callable has a list of parameters left: with which arguments, whether it hands on
the continuation, when the call fits, and that a parameter for the context holds it. -/
structure Step.Suits (step : Step) (left : Signature) (r : Runner) (run : Nat) (args : List Value)
    (given : Option Value) : Prop where
  args_eq : args =
    if left.hasRest then (r.run run).inputs
    else if (r.run run).inputs.length < left.required then (r.run run).inputs ++ [.next r.tickets.size]
    else (r.run run).inputs.take (min left.accepted (r.run run).inputs.length)
  takesNext_iff : step.takesNext (r.run run).inputs.length = true ↔
    left.hasRest = false ∧ (r.run run).inputs.length < left.required
  binds_iff : left.Binds args (givenKeywords given) ↔
    left.required ≤ (r.run run).inputs.length + if left.hasRest then 0 else 1
  context : left.hasKeyword "processor" = true → given = some (r.ware (r.run run).ware).context ∧
    ∀ held, left.bind args (givenKeywords given) = .ok held →
      ("processor", .one (r.ware (r.run run).ware).context) ∈ held

namespace Work
variable {sig left : Signature} {bound : List Value}

theorem suits_of_counts {step : Step} (hcounts : step.Counts left) (hwell : left.WellFormed)
    (hdemands : left.Demands "processor") (r : Runner) (run : Nat) :
    step.Suits left r run (Runner.argumentsOf step (r.run run).inputs r.tickets.size)
      (step.given (r.ware (r.run run).ware).context) where
  args_eq := by
    cases hrest : left.hasRest with
    | true => exact (hcounts.arguments_of_hasRest hrest _).2
    | false => exact hcounts.arguments_eq hrest _
  takesNext_iff := by
    cases hrest : left.hasRest with
    | true => simp [(hcounts.arguments_of_hasRest hrest r.tickets.size).1]
    | false => simp [hcounts.takesNext_iff hrest]
  binds_iff := by
    cases hrest : left.hasRest with
    | true => exact hcounts.binds_iff_of_hasRest hrest _ hwell hdemands _
    | false => exact hcounts.binds_iff hrest _ hwell hdemands _
  context hasks := by
    have htakes : step.takesContext = true := hcounts.takesContext.trans hasks
    exact ⟨by rw [Step.given, htakes]; rfl, fun held hbind => context_mem_of_bind hasks htakes hbind⟩

/-- A step that is registered is called with arguments that fit the parameters that are left of its callable, if there
are any such arguments. Where the callable leads to a function of a script, what is bound in front adds up, and the call
of the step is a call of that function, with what is bound in front; it fails at once if this does not fit. -/
theorem registered_step_fits {m m' : Machine} {σ : Service} {ware : Nat} {callee : Value} {u : Unit}
    (hattrs : m.store.AttrsInPlace) (huse : useStep ware callee bound σ m = (.done u, m')) :
    let new := m.store.registered callee bound
    (∀ left, new.2.signature? new.1 = some left → left.WellFormed → left.Demands "processor" →
      ∃ step m₁, putStep ware step σ m₁ = (.done u, m') ∧ step.callee = new.1 ∧
        ∀ (r : Runner) (run k : Nat), r.step k = step → ∃ args given,
          (r.proceed run (some k)).2 = .invoke step args given ∧ step.Suits left r run args given) ∧
    ∀ f sig inner left₀, (∃ hops, m.store.Leads f sig callee hops inner) → sig.WellFormed → sig.Demands "processor" →
      m.store.signature? callee = some left₀ → bound.length ≤ left₀.accepted ∨ left₀.hasRest = true →
      ∃ left hops' step m₁, new.2.signature? new.1 = some left ∧
        Signature.afterLeading (inner ++ bound).length sig = some left ∧
        new.2.Leads f sig new.1 hops' (inner ++ bound) ∧ putStep ware step σ m₁ = (.done u, m') ∧ step.callee = new.1 ∧
        ∀ (r : Runner) (run k : Nat), r.step k = step → ∃ args given,
          (r.proceed run (some k)).2 = .invoke step args given ∧ step.Suits left r run args given ∧
          (sig.Binds (inner ++ bound ++ args) (givenKeywords given) ↔ left.Binds args (givenKeywords given)) ∧
          (sig.hasKeyword "processor" = true → ∀ held,
            sig.bind (inner ++ bound ++ args) (givenKeywords given) = .ok held →
            ("processor", .one (r.ware (r.run run).ware).context) ∈ held) ∧
          ∀ m₂ : Machine, m₂.store.Leads f sig new.1 hops' (inner ++ bound) → ∀ depth,
            service (depth + 1 + hops') (.call new.1 args (givenKeywords given)) m₂ =
              service (depth + 1) (.call (.function f) (inner ++ bound ++ args) (givenKeywords given)) m₂ ∧
            (¬ sig.Binds (inner ++ bound ++ args) (givenKeywords given) → ∃ i m₃,
              service (depth + 1 + hops') (.call new.1 args (givenKeywords given)) m₂ = (.raised (.fault i), m₃) ∧
              (m₃.store.fault i).detail = .plain .type) := by
  intro new
  refine ⟨fun left hleft hwell hdemands => ?_, fun f sig inner left₀ hleads hwell hdemands hread htaken => ?_⟩
  · obtain ⟨step, m₁, hput, hcallee, hcounts⟩ := useStep_done huse hleft
    refine ⟨step, m₁, hput, hcallee, fun r run k hstep => ?_⟩
    subst hstep
    exact ⟨_, _, rfl, suits_of_counts hcounts hwell hdemands r run⟩
  · obtain ⟨hops, hleads⟩ := hleads
    -- What is bound in front of the callable comes in front of the function that it leads to, behind what was bound before.
    obtain ⟨hops', hnew, hsize⟩ := hleads.registered hattrs bound
    have hfuel : hops < m.store.functions.size + 2 := hleads.hops_lt (Option.isSome_of_eq_some hread)
    have hleft₀ : Signature.afterLeading inner.length sig = some left₀ := (hleads.signatureAt?_eq hfuel).symm.trans hread
    have hwell₀ := hwell.afterLeading hleft₀
    obtain ⟨left, hleft⟩ := Option.isSome_iff_exists.mp ((Signature.afterLeading_isSome hwell₀ _).mpr htaken)
    have hafter : Signature.afterLeading (inner ++ bound).length sig = some left := by
      rw [List.length_append, Signature.afterLeading_add, hleft₀]
      exact hleft
    have hnewleft : new.2.signature? new.1 = some left := by
      refine (hnew.signatureAt?_eq ?_).trans hafter
      show hops' < (m.store.registered callee bound).2.functions.size + 2
      omega
    obtain ⟨step, m₁, hput, hcallee, hcounts⟩ := useStep_done huse hnewleft
    refine ⟨left, hops', step, m₁, hnewleft, hafter, hnew, hput, hcallee, fun r run k hstep => ?_⟩
    subst hstep
    have hbinds : sig.Binds
          (inner ++ bound ++ Runner.argumentsOf (r.step k) (r.run run).inputs r.tickets.size)
          (givenKeywords ((r.step k).given (r.ware (r.run run).ware).context)) ↔
        left.Binds (Runner.argumentsOf (r.step k) (r.run run).inputs r.tickets.size)
          (givenKeywords ((r.step k).given (r.ware (r.run run).ware).context)) :=
      binds_afterLeading hafter hwell hdemands hcounts
    refine ⟨_, _, rfl, suits_of_counts hcounts (hwell.afterLeading hafter) (hdemands.afterLeading hafter) r run, hbinds,
      fun hasks held hbind => ?_, fun m₂ hleads₂ depth => ?_⟩
    · refine context_mem_of_bind hasks ?_ hbind
      rw [hcounts.takesContext, Signature.hasKeyword_afterLeading hafter, hasks]
    · have hcall := call_leads hleads₂ (depth + 1)
        (Runner.argumentsOf (r.step k) (r.run run).inputs r.tickets.size)
        ((r.step k).given (r.ware (r.run run).ware).context)
      refine ⟨hcall, fun hmisfit => ?_⟩
      obtain ⟨i, m₃, hraised, hdetail⟩ := call_misfit hleads₂.base hmisfit depth
      exact ⟨i, m₃, hcall.trans hraised, hdetail⟩

/-- With one argument bound, a tree as input, and a context. -/
theorem registered_step_fits_options :
    let sig := Signature.ofTokens ["options", "tree", "next", "file=", "*", "processor"]
    let new := (Machine.bench sig).store.registered (.function 0) [.str "deep"]
    ∃ left step u m₁ m', putStep 0 step (service 0) m₁ = (.done u, m') ∧ step.callee = new.1 ∧
      Signature.afterLeading 1 sig = some left ∧ ∀ (r : Runner) (run k : Nat), r.step k = step →
        ∃ args given, (r.proceed run (some k)).2 = .invoke step args given ∧ step.Suits left r run args given := by
  intro sig new
  have hdone : (match (useStep 0 (.function 0) [.str "deep"] (service 0) (Machine.bench sig)).1 with
      | .done _ => true
      | _ => false) = true := by decide +kernel
  obtain ⟨u, m', huse⟩ : ∃ u m', useStep 0 (.function 0) [.str "deep"] (service 0) (Machine.bench sig) = (.done u, m') := by
    rcases huse : useStep 0 (.function 0) [.str "deep"] (service 0) (Machine.bench sig) with ⟨u | e | _, m'⟩
    · exact ⟨u, m', rfl⟩
    all_goals
      rw [huse] at hdone
      cases hdone
  have hleads : (Machine.bench sig).store.Leads 0 sig (.function 0) 0 [] :=
    .script rfl (by decide) ⟨by decide, by decide⟩ (by decide)
  obtain ⟨-, hfits⟩ := registered_step_fits (m := Machine.bench sig) (Nat.le_refl _) huse
  obtain ⟨left, hops, step, m₁, -, hafter, -, hput, hcallee, hcall⟩ := hfits 0 sig [] sig ⟨0, hleads⟩ (by decide) (by decide)
    rfl (.inl (by decide))
  refine ⟨left, step, u, m₁, m', hput, hcallee, hafter, fun r run k hstep => ?_⟩
  obtain ⟨args, given, hproceed, hsuits, -⟩ := hcall r run k hstep
  exact ⟨args, given, hproceed, hsuits⟩

end Work

end Treeworks
