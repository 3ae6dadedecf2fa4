import Treeworks.Proofs.Log.Closing

/-! Machines on which entries are recorded as they are, while timed steps are opened and closed. The spans that were opened
since have metrics that can be shown, so that the last entry of each can be recorded. -/
namespace Treeworks
open Work

/-- A machine that records entries as they are, in a context of scalars whose span id is null or counts as true. -/
structure Machine.Recorder (m : Machine) : Prop where
  chain : m.logging.chain = none
  cell : m.cell < m.cells.size
  plain : m.scope.fields.Plain
  above : m.scope.fields.spanId = .null ∨ m.store.truthy m.scope.fields.spanId = true

/-- A span whose metrics stand in a mapping of its own that came later, and can be shown. -/
def Measured (σ : Service) (m₀ m : Machine) (span : Span) : Prop :=
  ∃ i t, span.metrics = .dict i ∧ m₀.store.dicts.size ≤ i ∧ i < m.store.dicts.size ∧ m.store.dict i = .ofTable t ∧
    Measures σ m₀ t

/-- A machine that comes after another, records entries as well, and has metrics that can be shown for all spans that
came later. -/
structure Recording (σ : Service) (m₀ m : Machine) : Prop extends m.Recorder where
  preserved : m₀.Preserved m
  measured : ∀ k, m₀.store.spans.size ≤ k → k < m.store.spans.size → Measured σ m₀ m (m.store.span k)

theorem Store.truthy_of_isScalar {v : Value} (h : v.isScalar = true) (s s' : Store) : s.truthy v = s'.truthy v := by
  cases v <;> first | rfl | cases h

namespace Machine.Later
variable {a b : Machine}

/-- Spans that came later may change. -/
theorem respanned (h : a.Later b) {k : Nat} (hk : a.store.spans.size ≤ k) (f : Span → Span) : a.Later (b.respanned k f) :=
  { h with spans := h.spans.modify hk f }

/-- Rights that came later may be used. -/
theorem restored (h : a.Later b) {t : Nat} (ht : a.store.tokens.size ≤ t) : a.Later (b.restored t) :=
  { h with
    cells := by simpa [Machine.restored] using h.cells
    tokens := h.tokens.modify ht fun t => { t with used := true } }

theorem logged (h : a.Later b) (d : Datum) : a.Later (b.logged d) := { h with }

end Machine.Later

namespace Machine.Preserved
variable {a b : Machine}

theorem respanned (h : a.Preserved b) {k : Nat} (hk : a.store.spans.size ≤ k) (f : Span → Span) :
    a.Preserved (b.respanned k f) := { h with toLater := h.toLater.respanned hk f }

theorem restored (h : a.Preserved b) {t : Nat} (ht : a.store.tokens.size ≤ t) : a.Preserved (b.restored t) :=
  { h with toLater := h.toLater.restored ht }

theorem logged (h : a.Preserved b) (d : Datum) : a.Preserved (b.logged d) := { h with }

theorem begun (m : Machine) (event : Value) (values : Table Value) : m.Preserved (m.begun event values) :=
  { refl m with
    cells := by simp [Machine.begun, Machine.entered, Machine.spanned]
    tokens := .push _ _
    spans := .push _ _
    ids := Nat.le_succ _
    dicts := .push _ _ }

end Machine.Preserved

theorem Measured.mono {σ : Service} {m₀ m m' : Machine} {span : Span} (h : Measured σ m₀ m span)
    (hdicts : Grows m.store.dicts m'.store.dicts) : Measured σ m₀ m' span := by
  obtain ⟨i, t, hbag, hlate, hi, hdict, ht⟩ := h
  exact ⟨i, t, hbag, hlate, Nat.lt_of_lt_of_le hi hdicts.size, (hdicts.same i hi []).trans hdict, ht⟩

namespace Recording
variable {σ : Service} {m₀ m m' : Machine}

theorem of_recorder (h : m.Recorder) : Recording σ m m :=
  { h with preserved := .refl m, measured := fun _ hk hlt => absurd hlt (Nat.not_lt.mpr hk) }

theorem silent (h : Recording σ m₀ m) (hs : m.Silent m') : Recording σ m₀ m' where
  chain := by rw [hs.logging, h.chain]
  cell := by
    rw [hs.cell, hs.same_cells]
    exact h.cell
  plain := hs.scope ▸ h.plain
  above := by
    rw [hs.scope, Store.truthy_of_isScalar (h.plain _ (by simp)) m'.store m.store]
    exact h.above
  preserved := h.preserved.trans hs.toPreserved
  measured k hk hlt := by
    rw [hs.same_spans] at hlt
    have hspan : m'.store.span k = m.store.span k := by
      unfold Store.span
      rw [hs.same_spans]
    rw [hspan]
    exact (h.measured k hk hlt).mono hs.dicts

theorem logged (h : Recording σ m₀ m) (d : Datum) : Recording σ m₀ (m.logged d) :=
  { h.toRecorder with preserved := h.preserved.logged d, measured := h.measured }

theorem handling (h : Recording σ m₀ m) (errors : List Value) : Recording σ m₀ { m with handling := errors } :=
  h.silent { Machine.Silent.refl m with }

theorem respanned (h : Recording σ m₀ m) {k : Nat} (hk : m₀.store.spans.size ≤ k) {f : Span → Span}
    (hf : ∀ span, (f span).metrics = span.metrics) : Recording σ m₀ (m.respanned k f) :=
  { h.toRecorder with
    preserved := h.preserved.respanned hk f
    measured := by
      intro j hj hlt
      have hlt' : j < m.store.spans.size := by simpa [Machine.respanned] using hlt
      obtain ⟨i, t, hbag, hrest⟩ := h.measured j hj hlt'
      refine ⟨i, t, ?_, hrest⟩
      have hspan : (m.respanned k f).store.span j = if k = j then f (m.store.span j) else m.store.span j := by
        simp only [Machine.respanned, Store.span, Array.getD_eq_getD_getElem?, Array.getElem?_modify]
        split <;> simp [hlt']
      rw [hspan]
      split
      · rw [hf, hbag]
      · exact hbag }

/-- The context of before is brought back. -/
theorem restored (h : Recording σ m₀ m) {t : Nat} (ht : m₀.store.tokens.size ≤ t) {c : Scope}
    (hc : (m.store.tokens.getD t default).previous = c) (hplain : c.fields.Plain)
    (habove : c.fields.spanId = .null ∨ m.store.truthy c.fields.spanId = true) : Recording σ m₀ (m.restored t) where
  chain := h.chain
  cell := by simpa [Machine.restored] using h.cell
  plain := by
    rw [m.scope_restored h.cell, hc]
    exact hplain
  above := by
    rw [m.scope_restored h.cell, hc, Store.truthy_of_isScalar (hplain _ (by simp)) _ m.store]
    exact habove
  preserved := h.preserved.restored ht
  measured := h.measured

theorem scope_begun (h : Recording σ m₀ m) (event : Value) (values : Table Value) :
    (m.begun event values).scope.fields = stepContext m.scope.fields (.spanId m.spanIds) values :=
  Machine.scope_entered h.cell _

/-- A step is begun. -/
theorem begun (h : Recording σ m₀ m) (event : Value) {values : Table Value}
    (hscalars : ∀ e ∈ values, isScopeName e.1 = true → e.2.isScalar = true)
    (hmetrics : Measures σ m₀ (stepMetrics values)) : Recording σ m₀ (m.begun event values) where
  chain := h.chain
  cell := by simpa [Machine.begun, Machine.entered, Machine.spanned] using h.cell
  plain := by
    rw [h.scope_begun]
    refine h.plain.merge fun e he => ?_
    simp only [List.cons_append, List.nil_append, List.mem_cons, List.mem_filter] at he
    rcases he with rfl | rfl | ⟨he, hname⟩
    · rfl
    · exact h.plain _ (by simp)
    · exact hscalars e he hname
  above := by
    rw [h.scope_begun, stepContext_spanId]
    exact .inr rfl
  preserved := h.preserved.trans (.begun m event values)
  measured k hk hlt := by
    have hdicts : Grows m.store.dicts (m.begun event values).store.dicts := .push _ _
    have hspans : Grows m.store.spans (m.begun event values).store.spans := .push _ _
    by_cases hold : k < m.store.spans.size
    · rw [show (m.begun event values).store.span k = m.store.span k from hspans.same k hold default]
      exact (h.measured k hk hold).mono hdicts
    · have hlast : k = m.store.spans.size := by
        have hsize : (m.begun event values).store.spans.size = m.store.spans.size + 1 := Array.size_push _
        omega
      subst hlast
      have hspan : (m.begun event values).store.span m.store.spans.size = m.nextSpan event := by
        simp [Machine.begun, Machine.entered, Machine.spanned, Store.span]
      have hsize : (m.begun event values).store.dicts.size = m.store.dicts.size + 1 := Array.size_push _
      rw [hspan]
      refine ⟨m.store.dicts.size, stepMetrics values, rfl, h.preserved.dicts.size, by omega, ?_, hmetrics⟩
      simp [Machine.begun, Machine.entered, Machine.spanned, Store.dict]

/-- A metric is added to a span that came later. -/
theorem measure (h : Recording σ m₀ m) {k : Nat} (hk : m₀.store.spans.size ≤ k) (hlt : k < m.store.spans.size)
    {name : String} (hname : name ∉ reservedNames) {v : Value} (hv : (see v).Calm σ m₀) :
    ∃ m', setItem (m.store.span k).metrics (.str name) v σ m = (.done (), m') ∧ Recording σ m₀ m' ∧ m.Later m' ∧
      m'.scope = m.scope ∧ m'.logs = m.logs := by
  obtain ⟨i, t, hbag, hlate, hi, hdict, ht⟩ := h.measured k hk hlt
  let f (u : Entries) : Entries := u.set (.str name) v
  let m' : Machine := { m with store := m.store.updateDict i f }
  have hset : setItem (.dict i) (.str name) v σ m = (.done (), m') := gives_setEntry i name v m σ
  rw [hbag]
  refine ⟨m', hset, ?_, { Machine.Later.refl m with }, rfl, rfl⟩
  have habove := h.above
  rw [Store.truthy_of_isScalar (h.plain _ (by simp)) m.store m'.store] at habove
  refine
    { chain := h.chain, cell := h.cell, plain := h.plain, above := habove
      preserved := { h.preserved with dicts := h.preserved.dicts.modify hlate f }
      measured := fun j hj hltj => ?_ }
  obtain ⟨i', t', hbag', hlate', hi', hdict', ht'⟩ := h.measured j hj hltj
  have hsize : m'.store.dicts.size = m.store.dicts.size := by simp [m', Store.updateDict]
  have hentries : m'.store.dict i' = if i = i' then f (m.store.dict i') else m.store.dict i' := by
    simp only [m', Store.updateDict, Store.dict, Array.getD_eq_getD_getElem?, Array.getElem?_modify]
    split <;> simp [hi']
  by_cases hsame : i = i'
  · refine ⟨i', t'.set name v, hbag', hlate', hsize ▸ hi', ?_, ht'.set hname hv⟩
    rw [hentries, if_pos hsame, hdict']
    exact Entries.set_ofTable t' name v
  · exact ⟨i', t', hbag', hlate', hsize ▸ hi', by rw [hentries, if_neg hsame, hdict'], ht'⟩

end Recording

/-! ### Steps that are opened -/

/-- What opening a step comes to: it is open in its context, and its first entry is recorded. -/
structure Opens (σ : Service) (m₀ m : Machine) (event : String) (values : Table Value) (d : Datum) (m' : Machine) :
    Prop where
  recording : Recording σ m₀ m'
  later : m.Later m'
  scope : m'.scope.fields = stepContext m.scope.fields (.spanId m.spanIds) values
  logs : m'.logs = d :: m.logs
  ids : m.spanIds < m'.spanIds
  token_lt : m.store.tokens.size < m'.store.tokens.size
  token : m'.store.tokens.getD m.store.tokens.size default = ⟨m.cell, m.scope, false⟩
  span_lt : m.store.spans.size < m'.store.spans.size
  span : m'.store.span m.store.spans.size = m.nextSpan (.str event)
  entry : StepEntry m'.spanNames (event ++ ".start") (.spanId m.spanIds) m.scope.fields.spanId.present
    (stepContext m.scope.fields (.spanId m.spanIds) values) d

theorem Recording.opens {σ : Service} {m₀ m : Machine} (h : Recording σ m₀ m) (event level : String) {values : Table Value}
    (hscalars : ∀ e ∈ values, isScopeName e.1 = true → e.2.isScalar = true)
    (hmetrics : Measures σ m₀ (stepMetrics values)) :
    ∃ d m', openStep (.str event) (.bool true) (.str level) values σ m =
      (.done (m.nextStep (.str event) (.str level)), m') ∧ Opens σ m₀ m event values d m' := by
  have hbegun := h.begun (.str event) hscalars hmetrics
  have hparent : m.scope.fields.spanId.isScalar = true := h.plain _ (by simp)
  have habove : m.scope.fields.spanId = .null ∨ (m.begun (.str event) values).store.truthy m.scope.fields.spanId = true := by
    rw [Store.truthy_of_isScalar hparent _ m.store]
    exact h.above
  obtain ⟨d, m₁, hfirst, hsilent, hentry⟩ := firstEntry_recorded hbegun.preserved (m.nextStep (.str event) (.str level))
    (m.nextSpan (.str event)) h.chain rfl rfl hparent habove hmetrics hbegun.plain
  rw [h.scope_begun] at hentry
  have hpreserved : m.Preserved m₁ := (Machine.Preserved.begun m (.str event) values).trans hsilent.toPreserved
  have htokens : (m.begun (.str event) values).store.tokens.size = m.store.tokens.size + 1 := Array.size_push _
  have hspans : (m.begun (.str event) values).store.spans.size = m.store.spans.size + 1 := Array.size_push _
  refine ⟨d, m₁.logged d, ?_, ?_⟩
  · rw [openStep_begun, bind_eq, attempt, hfirst]
    rfl
  · exact {
      recording := (hbegun.silent hsilent).logged d
      later := hpreserved.toLater.logged d
      scope := (congrArg (·.fields) hsilent.scope).trans (h.scope_begun _ values)
      logs := congrArg (d :: ·) hsilent.logs
      ids := Nat.lt_of_lt_of_le (Nat.lt_succ_self _) hsilent.ids
      token_lt := Nat.lt_of_lt_of_le (by omega) hsilent.tokens.size
      token := (hsilent.tokens.same _ (by omega) default).trans (Machine.token_entered _ _)
      span_lt := Nat.lt_of_lt_of_le (by omega) hsilent.spans.size
      span := by
        have hspan : (m.begun (.str event) values).store.span m.store.spans.size = m.nextSpan (.str event) := by
          simp [Machine.begun, Machine.entered, Machine.spanned, Store.span]
        exact (hsilent.spans.same _ (by omega) default).trans hspan
      entry := hentry }

/-! ### Steps that are closed -/

/-- A machine that comes after another, and has the right to bring its context back. -/
structure Machine.Holding (m m' : Machine) : Prop where
  later : m.Later m'
  token_lt : m.store.tokens.size < m'.store.tokens.size
  token : m'.store.tokens.getD m.store.tokens.size default = ⟨m.cell, m.scope, false⟩

theorem Opens.holding {σ : Service} {m₀ m m' m'' : Machine} {event : String} {values : Table Value} {d : Datum}
    (h : Opens σ m₀ m event values d m') (hlater : m'.Later m'') : m.Holding m'' where
  later := h.later.trans hlater
  token_lt := Nat.lt_of_lt_of_le h.token_lt hlater.tokens.size
  token := (hlater.tokens.same _ h.token_lt default).trans h.token

namespace Machine.Holding
variable {m a b : Machine}

theorem restores (h : m.Holding a) : a.Restores m.store.tokens.size := by
  unfold Machine.Restores
  rw [h.token]
  exact ⟨h.later.cell.symm, rfl⟩

theorem trans (h : m.Holding a) (hlater : a.Later b) : m.Holding b where
  later := h.later.trans hlater
  token_lt := Nat.lt_of_lt_of_le h.token_lt hlater.tokens.size
  token := (hlater.tokens.same _ h.token_lt default).trans h.token

theorem respanned (h : m.Holding a) (f : Span → Span) : m.Holding (a.respanned m.store.spans.size f) where
  later := h.later.respanned (Nat.le_refl _) f
  token_lt := h.token_lt
  token := h.token

end Machine.Holding

/-- The span that is opened next as it is once it has ended. -/
def Machine.lastSpan (m : Machine) (event error : Value) : Span :=
  { m.nextSpan event with endedAt := .float 0, error := error }

/-- What closing a step comes to: the context of before is brought back, and some entries are recorded. -/
structure Back (σ : Service) (m₀ m a : Machine) (entries : List Datum) (b : Machine) : Prop where
  recording : Recording σ m₀ b
  later : m.Later b
  scope : b.scope = m.scope
  logs : b.logs = entries ++ a.logs
  names : a.spanNames <+: b.spanNames
  ids : a.spanIds ≤ b.spanIds

namespace Recording
variable {σ : Service} {m₀ m m' : Machine}

theorem back (h : Recording σ m₀ m) (h' : Recording σ m₀ m') (hholding : m.Holding m') :
    Back σ m₀ m m' [] (m'.restored m.store.tokens.size) where
  recording := by
    refine h'.restored h.preserved.tokens.size (congrArg (·.previous) hholding.token) h.plain ?_
    rw [Store.truthy_of_isScalar (h.plain _ (by simp)) _ m.store]
    exact h.above
  later := hholding.later.restored (Nat.le_refl _)
  scope := by rw [m'.scope_restored h'.cell, hholding.token]
  logs := rfl
  names := List.prefix_rfl
  ids := Nat.le_refl _

/-- A span that has ended is reported with its metrics. -/
theorem reports (h : Recording σ m₀ m) {k : Nat} (hk : m₀.store.spans.size ≤ k) (hlt : k < m.store.spans.size)
    {span : Span} (hspan : m.store.span k = span) (htimes : ∃ x y, span.startedAt = .float x ∧ span.endedAt = .float y)
    (hid : span.id.isScalar = true) (hparent : span.parent.isScalar = true)
    (habove : span.parent = .null ∨ m.store.truthy span.parent = true)
    (herror : span.error = .null ∨ (printed span.error).Calm σ m₀) : Reports σ m₀ m (m.store.span k) := by
  obtain ⟨i, t, hbag, -, hi, hdict, ht⟩ := h.measured k hk hlt
  rw [hspan] at hbag ⊢
  exact ⟨htimes, hid, hparent, habove, ⟨i, t, hbag, hi, hdict, ht⟩, herror⟩

end Recording

namespace Work
variable {σ : Service} {m₀ m m' : Machine} {event level : String}

/-- Work ends as it would if no error was being handled. -/
theorem handling_eq {α : Type} {w : Work α} {e : Value} {out : Outcome α}
    (h : w σ { m with handling := e :: m.handling } = (out, m')) (hends : out ≠ .spent) :
    handling e w σ m = (out, { m' with handling := m'.handling.tail }) := by
  unfold handling
  rw [modify_bind, bind_eq, attempt, h]
  cases out with
  | spent => exact absurd rfl hends
  | _ => rfl

/-- The last entry of a step that is still open is recorded in the context of a machine that knows the step's span. -/
theorem lastEntry_recorded (h : Recording σ m₀ m) (h' : Recording σ m₀ m') (hlt : m.store.spans.size < m'.store.spans.size)
    {error : Value} (hspan : m'.store.span m.store.spans.size = m.lastSpan (.str event) error)
    (herror : error = .null ∨ (printed error).Calm σ m₀) (level : String) {name : String} {method : LogMethod}
    (hname : LoggerPart.ofName? false name = some (.method method)) (ending : String) :
    ∃ d m₁, writeLast (m.nextStep (.str event) (.str level)) (.str name) ending σ m' = (.done (), m₁.logged d) ∧
      m'.Silent m₁ ∧ StepEntry m₁.spanNames (event ++ ending) (.spanId m.spanIds) m.scope.fields.spanId.present
        m'.scope.fields d := by
  have hparent : m.scope.fields.spanId.isScalar = true := h.plain _ (by simp)
  have habove : m.scope.fields.spanId = .null ∨ m'.store.truthy m.scope.fields.spanId = true := by
    rw [Store.truthy_of_isScalar hparent _ m.store]
    exact h.above
  have hreports := h'.reports h.preserved.spans.size hlt hspan ⟨0, 0, rfl, rfl⟩ rfl hparent habove herror
  obtain ⟨d, m₁, hlast, hsilent, hentry⟩ := writeLast_recorded h'.preserved (m.nextStep (.str event) (.str level))
    h.chain h'.chain rfl hname h'.plain hreports ending
  rw [show m'.store.span (m.nextStep (.str event) (.str level)).span = _ from hspan] at hentry
  exact ⟨d, m₁, hlast, hsilent, hentry⟩

theorem span_respanned (m : Machine) {k : Nat} (hk : k < m.store.spans.size) (f : Span → Span) :
    (m.respanned k f).store.span k = f (m.store.span k) := by
  simp [Machine.respanned, Store.span, hk, Array.getElem_modify]

/-- A step that ends well is closed with an entry in the context of before. -/
theorem closeStep_ok_recorded (h : Recording σ m₀ m) (h' : Recording σ m₀ m') (hholding : m.Holding m')
    (hlt : m.store.spans.size < m'.store.spans.size) (hspan : m'.store.span m.store.spans.size = m.nextSpan (.str event))
    {method : LogMethod} (hlevel : LoggerPart.ofName? false level = some (.method method)) :
    ∃ d m₁, closeStep (m.nextStep (.str event) (.str level)) (.ok ()) σ m' = (.done (), m₁) ∧ Back σ m₀ m m' [d] m₁ ∧
      StepEntry m₁.spanNames (event ++ ".end") (.spanId m.spanIds) m.scope.fields.spanId.present m.scope.fields d := by
  let stopped := m'.respanned m.store.spans.size ended
  have hstopped : Recording σ m₀ stopped := h'.respanned h.preserved.spans.size fun span => by
    unfold ended
    split <;> rfl
  have hback := h.back hstopped (hholding.respanned ended)
  have hended : stopped.store.span m.store.spans.size = m.lastSpan (.str event) .null := by
    rw [span_respanned m' hlt, hspan]
    rfl
  have hlt' : m.store.spans.size < stopped.store.spans.size := by simpa [stopped, Machine.respanned] using hlt
  obtain ⟨d, m₁, hlast, hsilent, hentry⟩ :=
    lastEntry_recorded h hback.recording hlt' hended (.inl rfl) level hlevel ".end"
  rw [hback.scope] at hentry
  refine ⟨d, m₁.logged d, ?_, ?_, hentry⟩
  · have hrestores : m'.Restores (m.nextStep (.str event) (.str level)).token := hholding.restores
    have hclose := closeStep_ok (σ := σ) hrestores ()
    exact hclose.trans (bind_done hlast fun _ => pure ())
  · exact {
      recording := (hback.recording.silent hsilent).logged d
      later := (hback.later.trans hsilent.toLater).logged d
      scope := hsilent.scope.trans hback.scope
      logs := congrArg (d :: ·) hsilent.logs
      names := hsilent.names
      ids := hsilent.ids }

/-- A step that ends with an error that has a text is closed with an entry in the context of the step, if handlers of
ordinary errors see the error, and else without an entry. -/
theorem closeStep_error_recorded (h : Recording σ m₀ m) (h' : Recording σ m₀ m') (hholding : m.Holding m')
    (hlt : m.store.spans.size < m'.store.spans.size) (hspan : m'.store.span m.store.spans.size = m.nextSpan (.str event))
    (level : String) {e : Value} (he : (printed e).Calm σ m₀) :
    ∃ entries m₁, closeStep (α := Unit) (m.nextStep (.str event) (.str level)) (.error e) σ m' = (.raised e, m₁) ∧
      Back σ m₀ m m' entries m₁ ∧
      if ordinary m'.store e then
        ∃ d, entries = [d] ∧ StepEntry m₁.spanNames (event ++ ".error") (.spanId m.spanIds) m.scope.fields.spanId.present
          m'.scope.fields d
      else entries = [] := by
  let step := m.nextStep (.str event) (.str level)
  let stopped := (m'.respanned m.store.spans.size ended).respanned m.store.spans.size fun span => { span with error := e }
  let handled : Machine := { stopped with handling := e :: stopped.handling }
  have hstopped : Recording σ m₀ stopped := (h'.respanned h.preserved.spans.size fun span => by
    unfold ended
    split <;> rfl).respanned h.preserved.spans.size fun _ => rfl
  have hlt₁ : m.store.spans.size < (m'.respanned m.store.spans.size ended).store.spans.size := by
    simpa [Machine.respanned] using hlt
  have hended : handled.store.span m.store.spans.size = m.lastSpan (.str event) e := by
    show stopped.store.span m.store.spans.size = _
    rw [span_respanned _ hlt₁, span_respanned m' hlt, hspan]
    rfl
  have hlt' : m.store.spans.size < handled.store.spans.size := by
    show m.store.spans.size < stopped.store.spans.size
    simpa [stopped, Machine.respanned] using hlt
  have herror : LoggerPart.ofName? false "error" = some (.method .error) := rfl
  obtain ⟨d, m₁, hlast, hsilent, hentry⟩ :=
    lastEntry_recorded h (hstopped.handling _) hlt' hended (.inr he) level herror ".error"
  let last : Machine := { m₁.logged d with handling := m₁.handling.tail }
  have hfailed : failedEntry step e σ m' = (.done (), last) := handling_eq hlast nofun
  have hrecording : Recording σ m₀ last := (((hstopped.handling _).silent hsilent).logged d).handling _
  have hlater : stopped.Later last := { hsilent.toLater with }
  have hholding' : m.Holding last := ((hholding.respanned _).respanned _).trans hlater
  have hrestores : m'.Restores step.token := hholding.restores
  have hclose := closeStep_error (α := Unit) (σ := σ) hrestores e fun _ => by
    rw [hfailed]
    exact hholding'.restores
  -- Only an ordinary error is seen where the step is closed; any other goes past it, and there is no entry.
  by_cases hordinary : ordinary m'.store e = true
  · rw [if_pos hordinary, hfailed] at hclose
    have hback := h.back hrecording hholding'
    refine ⟨[d], _, hclose, ?_, ?_⟩
    · exact { hback with
        logs := congrArg (d :: ·) hsilent.logs
        names := hsilent.names
        ids := hsilent.ids }
    · rw [if_pos hordinary]
      exact ⟨d, rfl, hentry⟩
  · rw [if_neg hordinary] at hclose
    refine ⟨[], _, hclose, h.back h' hholding, ?_⟩
    rw [if_neg hordinary]

end Work
end Treeworks
