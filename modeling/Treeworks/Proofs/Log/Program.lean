import Treeworks.Answer
import Treeworks.Proofs.Log.Scopes
import Treeworks.Proofs.Slot.Calls

/-! Programs of blocks, and of what changes the logging context on the way. Each block brings the context of before
back, and each span is below the one of the innermost timed step around it. -/
namespace Treeworks

/-- A program of blocks. It goes on after a context has been pushed with the right to bring back the one of before, which
is known by how many others have been given since. -/
inductive Program
  | skip
  | andThen (first rest : Program)
  | raise (error : Value)
  | rescue (body handler : Program)
  | setContext (values : Table Value)
  | bindContext (values : Table Value)
  | clearContext
  | pushContext (values : Table Value) (rest : Program)
  | restore (i : Nat)
  | inContext (values : Table Value) (body : Program)
  | logStep (event logStart level : Value) (values : Table Value) (body : Program)
  | timed (step : Value) (body : Program)

namespace Program
open Work

/-- The current context with some of its fields overridden. -/
def overridden (values : Table Value) : Work LogContext := do
  refuseSelf "LogContext.merge" values
  return (← machine).scope.fields.merge values

/-- What a program does that has been given some rights to bring contexts back. -/
def run : Program → List Nat → Work Unit
  | .skip, _ => pure ()
  | .andThen p q, held => do
    p.run held
    q.run held
  | .raise e, _ => raiseValue e
  | .rescue p q, held => do
    match ← attempt (p.run held) with
    | .ok _ => return ()
    | .error e => handling e (q.run held)
  | .setContext values, _ => do setScope (← contextOfValues values)
  | .bindContext values, _ => do setScope (← overridden values)
  | .clearContext, _ => setScope .empty
  | .pushContext values p, held => do
    let token ← pushScope (← overridden values)
    p.run (token :: held)
  | .restore i, held =>
    match held[i]? with
    | some token => restoreScope token
    | none => pure ()
  | .inContext values p, held => do
    refuseSelf "LogContext.merge" values
    withinScope values (p.run held)
  | .logStep event logStart level values p, held => do
    let step ← openStep event logStart level values
    closeStep step (← attempt (p.run held))
  | .timed step p, held => do
    let i ← newSpan step []
    let result ← attempt (p.run held)
    stopSpan i
    release result

end Program

namespace Work
variable {α β : Type} {σ : Service} {held : List Nat} {m : Machine}

/-- Whether something is true of the machine that work leaves, if it ends. -/
def Ends (σ : Service) (m : Machine) (P : Machine → Prop) (w : Work α) : Prop := (w σ m).1 ≠ .spent → P (w σ m).2

theorem ends_bind {P : Machine → Prop} {w : Work α} {f : α → Work β} (hw : w.Ends σ m P)
    (hf : ∀ {a m'}, w σ m = (.done a, m') → P m' → (f a).Ends σ m' P) : (w >>= f).Ends σ m P := by
  intro hends
  unfold Ends at hw
  rw [bind_eq] at hends ⊢
  rcases hrun : w σ m with ⟨a | e | _, m'⟩
  · rw [hrun] at hw hends
    exact hf hrun (hw nofun) hends
  · rw [hrun] at hw
    exact hw nofun
  · rw [hrun] at hends
    exact absurd rfl hends

theorem ends_attempt {P : Machine → Prop} {w : Work α} (hw : w.Ends σ m P) : (attempt w).Ends σ m P := by
  intro hends
  unfold Ends at hw
  unfold attempt at hends ⊢
  rcases hrun : w σ m with ⟨a | e | _, m'⟩
  · rw [hrun] at hw
    exact hw nofun
  · rw [hrun] at hw
    exact hw nofun
  · rw [hrun] at hends
    exact absurd rfl hends

/-- Whether work leaves all rights to bring contexts back alone but those that are held, if it ends. -/
def Spares (σ : Service) (held : List Nat) (m : Machine) (w : Work α) : Prop := w.Ends σ m (Machine.Leaves held m)

theorem Heeds.spares {w : Work α} (h : w.Heeds .contexts) (hσ : Frame.contexts.serves σ) : w.Spares σ held m :=
  fun hends => (h.kept hσ hends).leaves held

theorem spares_bind {w : Work α} {f : α → Work β} (hw : w.Spares σ held m)
    (hf : ∀ {a m'}, w σ m = (.done a, m') → Machine.Leaves held m m' → (f a).Spares σ held m') :
    (w >>= f).Spares σ held m :=
  ends_bind hw fun hrun hleaves hends => hleaves.trans (hf hrun hleaves hends)

theorem ends_handling {P : Machine → Prop} (hP : ∀ (m : Machine) errors, P m → P { m with handling := errors }) (e : Value)
    (hm : P m) {w : Work α} (hw : w.Ends σ { m with handling := e :: m.handling } P) : (handling e w).Ends σ m P := by
  refine ends_bind (fun _ => hP m _ hm) fun hmodify _ => ?_
  cases hmodify
  refine ends_bind (ends_attempt hw) fun {result m'} _ hm' => ?_
  refine ends_bind (fun _ => hP m' _ hm') fun _ hm'' _ => ?_
  cases result <;> exact hm''

theorem spares_setScope (fields : LogContext) : (setScope fields).Spares σ held m :=
  fun _ => ⟨rfl, by simp [setScope, modify], Nat.le_refl _, fun _ _ => rfl, fun _ _ _ => rfl⟩

theorem fields_setScope (hcell : m.cell < m.cells.size) (fields : LogContext) :
    (setScope fields σ m).2.scope.fields = fields := by
  simp [setScope, Work.modify, Machine.scope, hcell]

theorem spares_newSpan (step : Value) (metrics : Table Value) : (newSpan step metrics).Spares σ held m := by
  obtain ⟨m', hspan, haside, -⟩ := newSpan_eq step metrics σ m
  intro _
  rw [hspan]
  exact Machine.Kept.leaves (.of_eq haside.cells haside.cell haside.tokens) held

/-- A context is brought back, or nothing happens to it. -/
theorem ends_restoreScope {P : Machine → Prop} (hσ : Frame.contexts.serves σ) {token : Nat} (hP : ∀ m', m.Kept m' → P m')
    (hrestored : P (m.restored token)) : (restoreScope token).Ends σ m P := by
  have hfails {failure : Failure} : (fail failure : Work Unit).Ends σ m P :=
    fun hends => hP _ ((heeds_fail failure).kept hσ hends)
  have hrestore : restoreScope token σ m =
      (if (m.store.tokens.getD token default).used then fail .usedToken
      else if (m.store.tokens.getD token default).cell ≠ m.cell then fail .foreignToken
      else modify (·.restored token) : Work Unit) σ m := by
    unfold restoreScope
    rw [machine_bind]
    dsimp only
    split
    · rfl
    · split <;> rfl
  unfold Ends
  rw [hrestore]
  split
  · exact hfails
  · split
    · exact hfails
    · exact fun _ => hrestored

theorem of_attempt_done {w : Work α} {m' : Machine} {result : Except Value α} (h : attempt w σ m = (.done result, m')) :
    ∃ out, w σ m = (out, m') ∧ out ≠ .spent ∧ ∀ e, result = .error e → out = .raised e := by
  unfold attempt at h
  split at h <;> cases h
  · rename_i hrun
    exact ⟨_, hrun, nofun, nofun⟩
  · rename_i hrun
    exact ⟨_, hrun, nofun, fun _ h => by cases h; rfl⟩

end Work

namespace Program
open Work
variable {α : Type} {σ : Service} {held : List Nat} {m : Machine}

theorem heeds_refuseSelf {F : Frame} (callee : String) (values : Table Value) : (refuseSelf callee values).Heeds F := by
  unfold refuseSelf
  grind

theorem heeds_contextOfValues {F : Frame} (values : Table Value) : (contextOfValues values).Heeds F := by
  unfold contextOfValues
  grind

theorem heeds_overridden {F : Frame} (values : Table Value) : (overridden values).Heeds F := by
  have hrefuse := heeds_refuseSelf (F := F) "LogContext.merge" values
  unfold overridden
  grind

/-- A program leaves all rights to bring contexts back alone but those that it has been given. -/
theorem spares_run (hσ : Frame.contexts.serves σ) (p : Program) {held : List Nat} {m : Machine} (h : m.Steady held) :
    (p.run held).Spares σ held m := by
  induction p generalizing held m with
  | skip => exact (heeds_pure _).spares hσ
  | andThen p q hp hq => exact spares_bind (hp h) fun _ hleaves => hq (h.leaves hleaves)
  | raise e => exact (heeds_raiseValue e).spares hσ
  | rescue p q hp hq =>
    refine spares_bind (ends_attempt (hp h)) fun {result m'} _ hleaves => ?_
    cases result with
    | ok u => exact (heeds_pure _).spares hσ
    | error e =>
      have hhandling (m : Machine) (errors : List Value) : Machine.Leaves held m { m with handling := errors } :=
        (Machine.Kept.handling m errors).leaves held
      have hsteady := (h.leaves hleaves).leaves (hhandling m' (e :: m'.handling))
      exact ends_handling (fun m errors h => h.trans (hhandling m errors)) e ((hhandling m' m'.handling))
        fun hends => (hhandling m' _).trans (hq hsteady hends)
  | setContext values => exact spares_bind ((heeds_contextOfValues values).spares hσ) fun _ _ => spares_setScope _
  | bindContext values => exact spares_bind ((heeds_overridden values).spares hσ) fun _ _ => spares_setScope _
  | clearContext => exact spares_setScope _
  | pushContext values p hp =>
    refine spares_bind ((heeds_overridden values).spares hσ) fun {fields m'} _ hleaves => ?_
    have hnew : (m'.entered fields).Steady (m'.store.tokens.size :: held) := (h.leaves hleaves).entered fields
    have hentered := m'.leaves_entered (m'.store.tokens.size :: held) fields
    exact fun hends => (hentered.trans (hp hnew hends)).of_cons (Nat.le_refl _)
  | restore i =>
    unfold run
    split
    · rename_i token htoken
      exact ends_restoreScope hσ (fun _ hkept => hkept.leaves held)
        (Machine.leaves_restored (List.mem_of_getElem? htoken) m)
    · exact (heeds_pure _).spares hσ
  | inContext values p hp =>
    refine spares_bind ((heeds_refuseSelf _ values).spares hσ) fun {_ m'} _ hleaves => ?_
    have hsteady := h.leaves hleaves
    exact fun hends => (withinScope_back hsteady values _ (hp (hsteady.leaves (m'.leaves_entered held _))) hends).2
  | logStep event logStart level values p hp =>
    have hopened := opened_openStep hσ h event logStart level values
    refine fun hends => ((stepped_closeStep hσ h event logStart level values (fun _ => p.run held) ?_).back hends).2
    intro step m₁ hopen
    rw [hopen] at hopened
    exact hp (h.leaves hopened.leaves)
  | timed step p hp =>
    refine spares_bind (spares_newSpan step []) fun _ hleaves => ?_
    refine spares_bind (ends_attempt (hp (h.leaves hleaves))) fun _ _ => ?_
    exact spares_bind ((heeds_stopSpan _).spares hσ) fun _ _ => (heeds_release _).spares hσ

/-! ### Spans -/

/-- Whether a program neither sets nor clears the logging context, nor writes a span id into it, nor brings back a
context from outside of the innermost timed step around it. The rights that it has been given since are `k`. -/
def Modest : Program → Nat → Prop
  | .skip, _ | .raise _, _ => True
  | .andThen p q, k | .rescue p q, k => p.Modest k ∧ q.Modest k
  | .setContext _, _ | .clearContext, _ => False
  | .bindContext values, _ => ∀ e ∈ values, e.1 = "span_id" → e.2 = .null
  | .pushContext values p, k => (∀ e ∈ values, e.1 = "span_id" → e.2 = .null) ∧ p.Modest (k + 1)
  | .restore i, k => i < k
  | .inContext values p, k => (∀ e ∈ values, e.1 = "span_id" → e.2 = .null) ∧ p.Modest k
  | .logStep _ _ _ _ p, _ => p.Modest 0
  | .timed _ p, k => p.Modest k

/-- The spans that a program opens as it runs, each with the id of the innermost timed step around it, which is `outer`
for the program. -/
def spans (σ : Service) : Program → List Nat → Value → Machine → List (Span × Value)
  | .andThen p q, held, outer, m =>
    p.spans σ held outer m ++
      match p.run held σ m with
      | (.done _, m) => q.spans σ held outer m
      | _ => []
  | .rescue p q, held, outer, m =>
    p.spans σ held outer m ++
      match p.run held σ m with
      | (.raised e, m) => q.spans σ held outer { m with handling := e :: m.handling }
      | _ => []
  | .pushContext values p, held, outer, m =>
    match (overridden values >>= pushScope) σ m with
    | (.done token, m) => p.spans σ (token :: held) outer m
    | _ => []
  | .inContext values p, held, outer, m =>
    match (overridden values >>= pushScope) σ m with
    | (.done _, m) => p.spans σ held outer m
    | _ => []
  | .logStep event logStart level values p, held, outer, m =>
    match newSpan event (stepMetrics values) σ m with
    | (.done i, new) =>
      (new.store.span i, outer) ::
        match openStep event logStart level values σ m with
        | (.done _, m) => p.spans σ held (new.store.span i).id m
        | _ => []
    | _ => []
  | .timed step p, held, outer, m =>
    match newSpan step [] σ m with
    | (.done i, m) => (m.store.span i, outer) :: p.spans σ held outer m
    | _ => []
  | _, _, _, _ => []

/-- A machine whose current span is the one given, also in the contexts that the first of some rights bring back. -/
structure Within (outer : Value) (k : Nat) (held : List Nat) (m : Machine) : Prop where
  current : m.scope.fields.spanId = outer
  previous : ∀ i < k, ∀ t, held[i]? = some t → (m.store.tokens.getD t default).previous.fields.spanId = outer


theorem Within.leaves {outer : Value} {k : Nat} {m' : Machine} (h : Within outer k held m) (hsteady : m.Steady held)
    {held' : List Nat} (hleaves : Machine.Leaves held' m m') (hcurrent : m'.scope.fields.spanId = outer) :
    Within outer k held m' where
  current := hcurrent
  previous i hi t ht := by
    rw [hleaves.previous t (hsteady.held t (List.mem_of_getElem? ht))]
    exact h.previous i hi t ht

theorem Within.kept {outer : Value} {k : Nat} {m' : Machine} (h : Within outer k held m) (hsteady : m.Steady held)
    (hkept : m.Kept m') : Within outer k held m' :=
  h.leaves hsteady (hkept.leaves held) (hkept.scope ▸ h.current)

/-- A context of the same span may be pushed. -/
theorem Within.entered {outer : Value} {k : Nat} (h : Within outer k held m) (hsteady : m.Steady held) {fields : LogContext}
    (hfields : fields.spanId = outer) : Within outer (k + 1) (m.store.tokens.size :: held) (m.entered fields) where
  current := by rw [m.scope_entered hsteady.cell, hfields]
  previous i hi t ht := by
    cases i with
    | zero =>
      cases ht
      rw [m.token_entered]
      exact h.current
    | succ i =>
      have hlt := hsteady.held t (List.mem_of_getElem? ht)
      rw [(m.leaves_entered held fields).previous t hlt]
      exact h.previous i (Nat.lt_of_succ_lt_succ hi) t ht

theorem Within.inner {outer : Value} {k : Nat} {t : Nat} (h : Within outer (k + 1) (t :: held) m) : Within outer k held m where
  current := h.current
  previous i hi := h.previous (i + 1) (Nat.succ_lt_succ hi)

theorem spanId_merge {c : LogContext} {values : Table Value} (h : ∀ e ∈ values, e.1 = "span_id" → e.2 = .null) :
    (c.merge values).spanId = c.spanId := (c.overrides_merge values).field_eq (by decide) h

/-- Values are refused, or nothing happens to them. -/
theorem refuseSelf_cases (σ : Service) (values : Table Value) (m : Machine) :
    refuseSelf "LogContext.merge" values σ m = (.done (), m) ∨
      ∃ e m', refuseSelf "LogContext.merge" values σ m = (.raised e, m') ∧ m.Kept m' := by
  unfold refuseSelf
  cases values.has "self" with
  | false => exact .inl rfl
  | true =>
    obtain ⟨i, m', hfails, haside, -⟩ := raises_fail (α := Unit) (.misfit "LogContext.merge" (.repeated "self")) m
    exact .inr ⟨.fault i, m', hfails σ, .of_eq haside.cells haside.cell haside.tokens⟩

theorem ends_refuseSelf {P : Machine → Prop} {values : Table Value} {w : Work α} (hP : ∀ m', m.Kept m' → P m')
    (hw : w.Ends σ m P) : (refuseSelf "LogContext.merge" values >>= fun _ => w).Ends σ m P := by
  unfold Ends at hw ⊢
  rcases refuseSelf_cases σ values m with hpasses | ⟨e, m', hfails, hkept⟩
  · rw [bind_eq, hpasses]
    exact hw
  · rw [bind_eq, hfails]
    exact fun _ => hP m' hkept

theorem ends_overridden {P : Machine → Prop} {values : Table Value} {f : LogContext → Work α}
    (hP : ∀ m', m.Kept m' → P m') (hf : (f (m.scope.fields.merge values)).Ends σ m P) :
    (overridden values >>= f).Ends σ m P := by
  unfold overridden
  rw [bind_assoc]
  exact ends_refuseSelf hP hf

theorem leaves_of_run (hσ : Frame.contexts.serves σ) {p : Program} {m' : Machine} {out : Outcome Unit} (h : m.Steady held)
    (hrun : p.run held σ m = (out, m')) (hends : out ≠ .spent) : Machine.Leaves held m m' := by
  have hspares := spares_run hσ p h
  unfold Spares Ends at hspares
  rw [hrun] at hspares
  exact hspares hends

/-- After a block of a context, the context is the one of before. -/
theorem ends_inContext (hσ : Frame.contexts.serves σ) (h : m.Steady held) (values : Table Value) (p : Program) :
    ((inContext values p).run held).Ends σ m fun m' => m'.scope = m.scope :=
  ends_refuseSelf (fun _ hkept => hkept.scope) fun hends =>
    (withinScope_back h values _ (spares_run hσ p (h.leaves (m.leaves_entered held _))) hends).1

/-- What a timed step comes to in a program. -/
theorem stepped_logStep (hσ : Frame.contexts.serves σ) (h : m.Steady held) (event logStart level : Value)
    (values : Table Value) (p : Program) :
    Stepped held values σ (fun _ => p.run held) m (openStep event logStart level values σ m)
      ((logStep event logStart level values p).run held σ m) := by
  have hopened := opened_openStep hσ h event logStart level values
  refine stepped_closeStep hσ h event logStart level values (fun _ => p.run held) fun hopen => ?_
  rw [hopen] at hopened
  exact spares_run hσ p (h.leaves hopened.leaves)

/-- A modest program leaves the current span alone. -/
theorem ends_run (hσ : Frame.contexts.serves σ) (p : Program) {outer : Value} {k : Nat} {held : List Nat} {m : Machine}
    (hmodest : p.Modest k) (h : m.Steady held) (hwithin : Within outer k held m) :
    (p.run held).Ends σ m fun m' => m'.scope.fields.spanId = outer := by
  have hkept {m m' : Machine} (hcurrent : m.scope.fields.spanId = outer) (hkept : m.Kept m') :
      m'.scope.fields.spanId = outer := hkept.scope ▸ hcurrent
  have hkeeps {α : Type} {w : Work α} {m : Machine} (hw : w.Heeds .contexts) (hcurrent : m.scope.fields.spanId = outer) :
      w.Ends σ m fun m' => m'.scope.fields.spanId = outer := fun hends => hkept hcurrent (hw.kept hσ hends)
  -- By induction on the program. A block brings the context back whatever is done in it; the current span is what all else
  -- has to leave alone.
  induction p generalizing k held m with
  | skip => exact hkeeps (heeds_pure _) hwithin.current
  | andThen p q hp hq =>
    refine ends_bind (hp hmodest.1 h hwithin) fun hrun hcurrent => ?_
    have hleaves := leaves_of_run hσ h hrun nofun
    exact hq hmodest.2 (h.leaves hleaves) (hwithin.leaves h hleaves hcurrent)
  | raise e => exact hkeeps (heeds_raiseValue e) hwithin.current
  | rescue p q hp hq =>
    refine ends_bind (ends_attempt (hp hmodest.1 h hwithin)) fun {result m'} hrun hcurrent => ?_
    obtain ⟨out, hout, hends, -⟩ := of_attempt_done hrun
    have hleaves := leaves_of_run hσ h hout hends
    cases result with
    | ok u => exact hkeeps (heeds_pure _) hcurrent
    | error e =>
      have hhandling : m'.Kept { m' with handling := e :: m'.handling } := .handling m' _
      have hsteady := h.leaves hleaves
      have hwithin' := (hwithin.leaves h hleaves hcurrent).kept hsteady hhandling
      exact ends_handling (fun _ _ h => h) e hcurrent (hq hmodest.2 (hsteady.leaves (hhandling.leaves held)) hwithin')
  | setContext values => exact hmodest.elim
  | bindContext values =>
    have hspan := (spanId_merge hmodest).trans hwithin.current
    refine ends_overridden (fun m' => hkept hwithin.current) fun _ => ?_
    rw [fields_setScope h.cell]
    exact hspan
  | clearContext => exact hmodest.elim
  | pushContext values p hp =>
    have hspan := (spanId_merge hmodest.1).trans hwithin.current
    exact ends_overridden (fun m' => hkept hwithin.current) (hp hmodest.2 (h.entered _) (hwithin.entered h hspan))
  | restore i =>
    unfold run
    split
    · rename_i token htoken
      refine ends_restoreScope hσ (fun m' => hkept hwithin.current) ?_
      rw [Machine.scope_restored h.cell]
      exact hwithin.previous i hmodest token htoken
    · exact hkeeps (heeds_pure _) hwithin.current
  | inContext values p hp =>
    exact fun hends => (congrArg (·.fields.spanId) (ends_inContext hσ h values p hends)).trans hwithin.current
  | logStep event logStart level values p hp =>
    have hback := (stepped_logStep hσ h event logStart level values p).back
    exact fun hends => (congrArg (·.fields.spanId) (hback hends).1).trans hwithin.current
  | timed step p hp =>
    obtain ⟨m₁, hspan, haside, -⟩ := newSpan_eq step [] σ m
    have hnew : m.Kept m₁ := .of_eq haside.cells haside.cell haside.tokens
    refine ends_bind (fun _ => by rw [hspan]; exact hkept hwithin.current hnew) fun {i m'} hrun _ => ?_
    cases hspan.symm.trans hrun
    refine ends_bind (ends_attempt (hp hmodest (h.leaves (hnew.leaves held)) (hwithin.kept h hnew))) fun _ hcurrent => ?_
    exact ends_bind (hkeeps (heeds_stopSpan _) hcurrent) fun _ hcurrent => hkeeps (heeds_release _) hcurrent

/-- What some fields are overridden to is pushed, or nothing changes. -/
theorem pushScope_of_overridden {values : Table Value} {token : Nat} {m' : Machine}
    (h : (overridden values >>= pushScope) σ m = (.done token, m')) :
    token = m.store.tokens.size ∧ m' = m.entered (m.scope.fields.merge values) := by
  unfold overridden at h
  rw [bind_assoc] at h
  rcases refuseSelf_cases σ values m with hpasses | ⟨e, m₁, hfails, -⟩
  · rw [bind_eq, hpasses] at h
    cases h
    exact ⟨rfl, rfl⟩
  · rw [bind_eq, hfails] at h
    cases h

theorem current_of_run (hσ : Frame.contexts.serves σ) {p : Program} {outer : Value} {k : Nat} {m' : Machine}
    {out : Outcome Unit} (hmodest : p.Modest k) (h : m.Steady held) (hwithin : Within outer k held m)
    (hrun : p.run held σ m = (out, m')) (hends : out ≠ .spent) : m'.Steady held ∧ Within outer k held m' := by
  have hleaves := leaves_of_run hσ h hrun hends
  have hcurrent := ends_run hσ p hmodest h hwithin
  unfold Ends at hcurrent
  rw [hrun] at hcurrent
  exact ⟨h.leaves hleaves, hwithin.leaves h hleaves (hcurrent hends)⟩

/-- Each span that a modest program opens is below the one of the innermost timed step around it. -/
theorem parent_of_mem_spans (hσ : Frame.contexts.serves σ) (p : Program) {outer : Value} {k : Nat} {held : List Nat}
    {m : Machine} (hmodest : p.Modest k) (h : m.Steady held) (hwithin : Within outer k held m) {x : Span × Value}
    (hx : x ∈ p.spans σ held outer m) : x.1.parent = x.2 := by
  -- By induction on the program. What is within a timed step has the span of that as the outer one.
  induction p generalizing outer k held m with
  | skip | raise _ | setContext _ | bindContext _ | clearContext | restore _ => cases hx
  | andThen p q hp hq =>
    rw [spans] at hx
    rcases List.mem_append.mp hx with hx | hx
    · exact hp hmodest.1 h hwithin hx
    · split at hx
      · rename_i hrun
        obtain ⟨hsteady, hwithin⟩ := current_of_run hσ hmodest.1 h hwithin hrun nofun
        exact hq hmodest.2 hsteady hwithin hx
      · cases hx
  | rescue p q hp hq =>
    rw [spans] at hx
    rcases List.mem_append.mp hx with hx | hx
    · exact hp hmodest.1 h hwithin hx
    · split at hx
      · rename_i e m' hrun
        obtain ⟨hsteady, hwithin⟩ := current_of_run hσ hmodest.1 h hwithin hrun nofun
        have hkept := Machine.Kept.handling m' (e :: m'.handling)
        exact hq hmodest.2 (hsteady.leaves (hkept.leaves held)) (hwithin.kept hsteady hkept) hx
      · cases hx
  | pushContext values p hp =>
    rw [spans] at hx
    split at hx
    · rename_i hpush
      obtain ⟨rfl, rfl⟩ := pushScope_of_overridden hpush
      have hspan := (spanId_merge hmodest.1).trans hwithin.current
      exact hp hmodest.2 (h.entered _) (hwithin.entered h hspan) hx
    · cases hx
  | inContext values p hp =>
    rw [spans] at hx
    split at hx
    · rename_i hpush
      obtain ⟨rfl, rfl⟩ := pushScope_of_overridden hpush
      have hspan := (spanId_merge hmodest.1).trans hwithin.current
      have hleaves := m.leaves_entered held (m.scope.fields.merge values)
      exact hp hmodest.2 (h.leaves hleaves) (hwithin.entered h hspan).inner hx
    · cases hx
  | logStep event logStart level values p hp =>
    obtain ⟨m₁, hspan, -, hid, hparent⟩ := newSpan_eq event (stepMetrics values) σ m
    rw [spans, hspan] at hx
    rcases List.mem_cons.mp hx with rfl | hx
    · exact hparent.trans hwithin.current
    · split at hx
      · rename_i step m₂ hopen
        have hopened := opened_openStep hσ h event logStart level values
        have hinside := (stepped_logStep hσ h event logStart level values p).inside hopen
        rw [hopen] at hopened
        have hcurrent : m₂.scope.fields.spanId = (m₁.store.span m.store.spans.size).id := by
          rw [hinside, stepContext_spanId]
          exact hid.symm
        exact hp hmodest (h.leaves hopened.leaves) ⟨hcurrent, nofun⟩ hx
      · cases hx
  | timed step p hp =>
    obtain ⟨m₁, hspan, haside, -, hparent⟩ := newSpan_eq step [] σ m
    have hkept : m.Kept m₁ := .of_eq haside.cells haside.cell haside.tokens
    rw [spans, hspan] at hx
    rcases List.mem_cons.mp hx with rfl | hx
    · exact hparent.trans hwithin.current
    · exact hp hmodest (h.leaves (hkept.leaves held)) (hwithin.kept h hkept) hx

/-- Whatever is done in a block of a context or in a timed step, the context of before is brought back, however it ends.
At its beginning the context is the one of before with the given fields overridden. An error that ends a block goes on,
unless it is an ordinary one that ends a timed step and writing its entry fails. In programs that leave the current span
alone, each span is below the one of the innermost timed step around it. -/
theorem blocks_restore_contexts (hσ : Frame.contexts.serves σ) :
    (∀ {held m}, Machine.Steady held m → ∀ values p,
      ((inContext values p).run held).Ends σ m (fun m' => m'.scope = m.scope) ∧
      (values.has "self" = false → ∃ m₁ : Machine, m₁.scope.fields.Overrides m.scope.fields values ∧
        ∀ {out m₂}, p.run held σ m₁ = (out, m₂) → out ≠ .spent →
          ((inContext values p).run held σ m).1 = out)) ∧
    (∀ {held m}, Machine.Steady held m → ∀ event logStart level values p,
      ((logStep event logStart level values p).run held).Ends σ m (fun m' => m'.scope = m.scope) ∧
      ∀ {step m₁}, openStep event logStart level values σ m = (.done step, m₁) →
        m₁.scope.fields.Overrides m.scope.fields
          ([("span_id", .spanId m.spanIds), ("parent_span_id", m.scope.fields.spanId)] ++
            values.filter fun e => isScopeName e.1) ∧
        ∀ {e m₂}, p.run held σ m₁ = (.raised e, m₂) →
          ((logStep event logStart level values p).run held σ m).1 =
            if ordinary m₂.store e then Outcome.instead e (failedEntry step e σ m₂).1 else .raised e) ∧
    (∀ {held m} step p, ∃ i m₁, newSpan step [] σ m = (.done i, m₁) ∧
      ∀ {e m₂}, p.run held σ m₁ = (.raised e, m₂) → ((timed step p).run held σ m).1 = .raised e) ∧
    ∀ {m p}, Machine.Steady [] m → m.scope.fields.spanId = .null → Modest p 0 →
      ∀ x ∈ p.spans σ [] .null m, x.1.parent = x.2 := by
  refine ⟨fun {held m} h values p => ⟨ends_inContext hσ h values p, fun hself => ?_⟩,
    fun {held m} h event logStart level values p => ?_, fun {held m} step p => ?_, fun {m p} h hnone hmodest x hx => ?_⟩
  · refine ⟨m.entered (m.scope.fields.merge values), ?_, fun {out m₂} hrun hends => ?_⟩
    · rw [m.scope_entered h.cell]
      exact LogContext.overrides_merge _ values
    · have hpasses : refuseSelf "LogContext.merge" values σ m = (.done (), m) := by
        unfold refuseSelf
        rw [hself]
        rfl
      have hblock : (inContext values p).run held σ m = withinScope values (p.run held) σ m := by
        show (refuseSelf "LogContext.merge" values >>= fun _ => withinScope values (p.run held)) σ m = _
        rw [bind_eq, hpasses]
      rw [hblock, withinScope_eq h values _ (spares_run hσ p (h.leaves (m.leaves_entered held _))), hrun]
      cases out with
      | spent => exact absurd rfl hends
      | _ => rfl
  · have hstepped := stepped_logStep hσ h event logStart level values p
    refine ⟨fun hends => (hstepped.back hends).1, fun {step m₁} hopen => ⟨?_, fun {e m₂} hrun => ?_⟩⟩
    · rw [hstepped.inside hopen]
      exact LogContext.overrides_merge _ _
    · exact hstepped.raises hopen hrun
  · obtain ⟨m₁, hspan, -⟩ := newSpan_eq step [] σ m
    refine ⟨_, m₁, hspan, fun {e m₂} hrun => ?_⟩
    have hblock : (timed step p).run held σ m = (attempt (p.run held) >>= fun result => do
        stopSpan m.store.spans.size
        release result : Work Unit) σ m₁ := by
      show (newSpan step [] >>= _) σ m = _
      rw [bind_eq, hspan]
    rw [hblock, bind_eq, attempt, hrun]
    rfl
  · exact parent_of_mem_spans hσ p hmodest h ⟨hnone, by simp⟩ hx

end Program

/-- A machine in which nothing has been done, with an error to raise. -/
def Machine.blank : Machine :=
  { Machine.initial false with store := (Store.initial.addFault (.plain .value) [.str "boom"] .null).2 }

/-- Where no request is done, all answers are failures, which leave the context alone. -/
theorem Work.serves_service_zero : Frame.contexts.serves (service 0) := by
  have hidle : Frame.contexts.serves .idle := fun _ _ _ hends => absurd rfl hends
  exact fun _ _ _ hends => (heeds_fail Failure.tooDeep).kept hidle hends

namespace Program
open Work

/-- A timed step that fails. -/
def failing : Program := .logStep (.str "inner") (.bool true) (.str "info") [("nodes", .int 3)] (.raise (.fault 0))

/-- A timed step with others inside, and with a context that is not brought back. -/
def nesting : Program :=
  .logStep (.str "outer") (.bool true) (.str "info") [("processor", .str "n")]
    (.andThen (.timed (.str "measured") .skip) (.andThen (.rescue failing .skip)
      (.pushContext [("stage", .str "late")] (.timed (.str "last") .skip))))

/-- Four spans are opened; the error that ends the step goes on. -/
theorem blocks_restore_contexts_nesting :
    (failing.run [] (service 0) .blank).1.error? = some (.fault 0) ∧
      (failing.run [] (service 0) .blank).2.scope = Machine.blank.scope ∧
      (nesting.spans (service 0) [] .null .blank).map (fun x => (x.1.id, x.2)) =
        [(.spanId 0, .null), (.spanId 1, .spanId 0), (.spanId 2, .spanId 0), (.spanId 3, .spanId 0)] ∧
      ∀ x ∈ nesting.spans (service 0) [] .null .blank, x.1.parent = x.2 := by
  have hsteady : Machine.Steady [] Machine.blank := ⟨by decide, nofun⟩
  have hfails : (failing.run [] (service 0) .blank).1.error? = some (.fault 0) := by decide +kernel
  have hmodest : nesting.Modest 0 := by simp [nesting, failing, Modest]
  obtain ⟨-, hsteps, -, hspans⟩ := blocks_restore_contexts serves_service_zero
  obtain ⟨hback, -⟩ := hsteps hsteady (.str "inner") (.bool true) (.str "info") [("nodes", .int 3)] (.raise (.fault 0))
  refine ⟨hfails, hback fun hspent => ?_, by decide +kernel, hspans hsteady rfl hmodest⟩
  change (failing.run [] (service 0) .blank).1 = .spent at hspent
  rw [hspent] at hfails
  cases hfails

/-- Where a metric has the name of something else that the logger takes, the entry of the error cannot be written, and
what goes on is another error. -/
theorem error_overtaken_by_entry :
    ((raise (.fault 0)).run [] (service 0) .blank).1.error? = some (.fault 0) ∧
      ((logStep (.str "s") (.bool false) (.str "info") [("method_name", .int 1)] (.raise (.fault 0))).run [] (service 0)
        .blank).1.error? = some (.fault 1) := by
  decide +kernel

end Program
end Treeworks
