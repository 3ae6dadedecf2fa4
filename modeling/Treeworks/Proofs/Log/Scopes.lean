import Treeworks.Proofs.Default.Noted
import Treeworks.Proofs.Heed.Entries
import Treeworks.Proofs.Slot.Reading

/-! Blocks that bring the logging context of before back, however they end. Whatever is asked for meanwhile, such as the
texts of values, is taken to leave the current context alone, and the rights to bring others back. -/
namespace Treeworks

namespace LogContext
variable {c : LogContext}

/-- The value of a field by its name. -/
def field (c : LogContext) (name : String) : Value :=
  if name = "processor" then c.processor
  else if name = "stage" then c.stage
  else if name = "file_path" then c.filePath
  else if name = "span_id" then c.spanId
  else if name = "parent_span_id" then c.parentSpanId
  else .null

theorem field_setField (c : LogContext) (name : String) (v : Value) {other : String} (h : other ∈ fieldNames) :
    (c.setField name v).field other = if name = other then v else c.field other := by
  simp only [fieldNames, List.mem_cons, List.not_mem_nil, or_false] at h
  unfold setField field
  rcases h with rfl | rfl | rfl | rfl | rfl <;> grind

/-- A context whose fields are those of another, but for the ones that are given values: of those that are not null, the
last counts. -/
def Overrides (inner outer : LogContext) (values : Table Value) : Prop :=
  ∀ name ∈ fieldNames, inner.field name =
    ((values.reverse.find? fun e => e.1 = name ∧ e.2 ≠ .null).map (·.2)).getD (outer.field name)

theorem overrides_merge (c : LogContext) (values : Table Value) : (c.merge values).Overrides c values := by
  intro name hname
  unfold merge
  induction values generalizing c with
  | nil => rfl
  | cons e values ih =>
    have hset : (if e.2 = .null then c else c.setField e.1 e.2).field name =
        (([e].find? fun e => e.1 = name ∧ e.2 ≠ .null).map (·.2)).getD (c.field name) := by
      by_cases hnull : e.2 = .null
      · simp [hnull]
      · rw [if_neg hnull, field_setField c e.1 e.2 hname]
        by_cases heq : e.1 = name <;> simp [heq, hnull]
    rw [List.foldl_cons, ih, List.reverse_cons, List.find?_append, hset]
    cases values.reverse.find? fun e => e.1 = name ∧ e.2 ≠ .null <;> rfl

/-- Fields that are given no values stay. -/
theorem Overrides.field_eq {inner outer : LogContext} {values : Table Value} (h : inner.Overrides outer values)
    {name : String} (hname : name ∈ fieldNames) (hvalues : ∀ e ∈ values, e.1 = name → e.2 = .null) :
    inner.field name = outer.field name := by
  have hnone : (values.reverse.find? fun e => e.1 = name ∧ e.2 ≠ .null) = none := by
    rw [List.find?_eq_none]
    intro e he hgiven
    obtain ⟨heq, hnull⟩ := of_decide_eq_true hgiven
    exact hnull (hvalues e (List.mem_reverse.mp he) heq)
  rw [h name hname, hnone]
  rfl

end LogContext

/-- A machine with the same logging context as another, in the same cell, and with all rights to bring others back. -/
structure Machine.Kept (m m' : Machine) : Prop where
  cell : m'.cell = m.cell
  cells : m.cells.size ≤ m'.cells.size
  scope : m'.scope = m.scope
  tokens : Grows m.store.tokens m'.store.tokens

namespace Machine.Kept
variable {a b c m m' : Machine}

theorem refl (m : Machine) : m.Kept m := ⟨rfl, Nat.le_refl _, rfl, .refl _⟩

theorem trans (h : a.Kept b) (h' : b.Kept c) : a.Kept c where
  cell := h'.cell.trans h.cell
  cells := Nat.le_trans h.cells h'.cells
  scope := h'.scope.trans h.scope
  tokens := h.tokens.trans h'.tokens

theorem of_eq (hcells : m'.cells = m.cells) (hcell : m'.cell = m.cell) (htokens : m'.store.tokens = m.store.tokens) :
    m.Kept m' where
  cell := hcell
  cells := Nat.le_of_eq (by rw [hcells])
  scope := by rw [Machine.scope, Machine.scope, hcells, hcell]
  tokens := htokens ▸ .refl _

theorem handling (m : Machine) (errors : List Value) : m.Kept { m with handling := errors } := .of_eq rfl rfl rfl

end Machine.Kept

namespace Store
variable {s s' : Store}

theorem tokens_setTypeAttr {i : Nat} {name : String} {value : Value} (h : s.setTypeAttr i name value = .ok s') :
    s'.tokens = s.tokens := by
  unfold setTypeAttr at h
  split at h
  · split at h
    · obtain ⟨-, -, h⟩ := Except.bind_eq_ok h
      cases h
      rfl
    · cases h
  split at h
  · split at h <;> cases h
    rfl
  split at h
  · cases h
    rfl
  split at h
  · cases h
    rfl
  split at h
  · cases h
  split at h
  · cases h
  · cases h
    rfl

theorem tokens_newType {name : String} {module doc : Value} {bases : List Nat} {attrs : Table Value} {role : Role}
    {i : Nat} (h : s.newType name module doc bases attrs role = .ok (i, s')) : s'.tokens = s.tokens := by
  unfold newType at h
  split at h
  · obtain ⟨asked, -, h⟩ := Except.bind_eq_ok h
    obtain ⟨slots, -, h⟩ := Except.bind_eq_ok h
    obtain ⟨-, -, h⟩ := Except.bind_eq_ok h
    obtain ⟨qualname, -, h⟩ := Except.bind_eq_ok h
    by_cases hcell : attrs.has "__classcell__" = true
    · rw [if_pos hcell] at h
      cases h
    · rw [if_neg hcell] at h
      split at h <;> cases h
      rfl
  · cases h

theorem tokens_derive (s : Store) (base : Nat) (documented : Bool) : (s.derive base documented).2.tokens = s.tokens :=
  (ownContainers_spec s (s.visibleAttrs (s.type base).ancestry)).1.rests.tokens

end Store

/-- The frame of logging contexts. Answers that end are taken to leave the current one alone, unless they let coroutines
go on; of the classes nothing is asked. -/
def Frame.contexts : Frame where
  sound _ := True
  holds := Machine.Kept
  lasting := False
  asks r := r.resumes = false
  serves σ := ∀ r, r.resumes = false → ∀ m, (σ r m).1 ≠ .spent → m.Kept (σ r m).2
  answers _ := True
  stores _ _ := True
  defines _ := True
  defines_public _ := trivial
  trans := .trans
  keeps _ _ := trivial
  calls h := h
  served h _ hr m hends := h _ hr m hends
  answered := fun _ _ _ _ _ _ _ => trivial
  stores_of_answers _ _ := trivial
  stores_object _ _ := trivial
  stores_public _ _ _ := trivial
  still _ hstore hcontrol := .of_eq hcontrol.cells hcontrol.cell hstore.rests.tokens
  used _ := .of_eq rfl rfl rfl
  stored _ hs := .of_eq rfl rfl (Store.tokens_setTypeAttr hs)
  annotated _ _ _ := .of_eq rfl rfl rfl
  derived m base documented := .of_eq rfl rfl (m.store.tokens_derive base documented)
  defined _ hs := .of_eq rfl rfl (Store.tokens_newType hs)

instance : Frame.contexts.Lax := ⟨fun _ _ => trivial, fun _ => trivial⟩

namespace Machine
variable {m m' m'' : Machine} {held : List Nat}

/-- A machine in the same cell as another whose rights to bring contexts back are there, and unused unless they are
held. -/
structure Leaves (held : List Nat) (m m' : Machine) : Prop where
  cell : m'.cell = m.cell
  cells : m.cells.size ≤ m'.cells.size
  tokens : m.store.tokens.size ≤ m'.store.tokens.size
  previous : ∀ t < m.store.tokens.size,
    (m'.store.tokens.getD t default).previous = (m.store.tokens.getD t default).previous
  same : ∀ t < m.store.tokens.size, t ∉ held → m'.store.tokens.getD t default = m.store.tokens.getD t default

theorem Kept.leaves (h : m.Kept m') (held : List Nat) : Leaves held m m' where
  cell := h.cell
  cells := h.cells
  tokens := h.tokens.size
  previous t ht := by rw [h.tokens.same t ht default]
  same t ht _ := h.tokens.same t ht default

theorem Leaves.trans (h : Leaves held m m') (h' : Leaves held m' m'') : Leaves held m m'' where
  cell := h'.cell.trans h.cell
  cells := Nat.le_trans h.cells h'.cells
  tokens := Nat.le_trans h.tokens h'.tokens
  previous t ht := (h'.previous t (Nat.lt_of_lt_of_le ht h.tokens)).trans (h.previous t ht)
  same t ht hheld := (h'.same t (Nat.lt_of_lt_of_le ht h.tokens) hheld).trans (h.same t ht hheld)

theorem Leaves.cons (h : Leaves held m m') (t : Nat) : Leaves (t :: held) m m' :=
  { h with same := fun u hu hheld => h.same u hu fun hmem => hheld (.tail _ hmem) }

/-- Something that is held besides, and was not there before, makes no difference. -/
theorem Leaves.of_cons {t : Nat} (ht : m.store.tokens.size ≤ t) (h : Leaves (t :: held) m m') : Leaves held m m' :=
  { h with same := fun u hu hheld => h.same u hu fun hmem =>
      (List.mem_cons.mp hmem).elim (fun heq => absurd hu (Nat.not_lt.mpr (heq ▸ ht))) hheld }

/-- A machine whose current context can be replaced, and in which all that is held is there. -/
structure Steady (held : List Nat) (m : Machine) : Prop where
  cell : m.cell < m.cells.size
  held : ∀ t ∈ held, t < m.store.tokens.size

theorem Steady.leaves (h : Steady held m) {held' : List Nat} (hleaves : Leaves held' m m') : Steady held m' where
  cell := by
    rw [hleaves.cell]
    exact Nat.lt_of_lt_of_le h.cell hleaves.cells
  held t ht := Nat.lt_of_lt_of_le (h.held t ht) hleaves.tokens

/-- The machine after its context has been replaced for a time. -/
def entered (m : Machine) (fields : LogContext) : Machine :=
  { m with
    stamps := m.stamps + 1
    cells := m.cells.set! m.cell ⟨m.stamps + 1, fields⟩
    store := { m.store with tokens := m.store.tokens.push ⟨m.cell, m.scope, false⟩ } }

theorem scope_entered (hcell : m.cell < m.cells.size) (fields : LogContext) :
    (m.entered fields).scope.fields = fields := by
  simp [entered, scope, hcell]

theorem token_entered (m : Machine) (fields : LogContext) :
    (m.entered fields).store.tokens.getD m.store.tokens.size default = ⟨m.cell, m.scope, false⟩ := by
  simp [entered]

theorem leaves_entered (held : List Nat) (m : Machine) (fields : LogContext) : Leaves held m (m.entered fields) := by
  have hgrows : Grows m.store.tokens (m.entered fields).store.tokens := .push _ _
  exact ⟨rfl, by simp [entered], hgrows.size, fun t ht => by rw [hgrows.same t ht default],
    fun t ht _ => hgrows.same t ht default⟩

/-- The right to bring the context of before back can be held from then on. -/
theorem Steady.entered (h : Steady held m) (fields : LogContext) :
    Steady (m.store.tokens.size :: held) (m.entered fields) := by
  have hsteady := h.leaves (m.leaves_entered held fields)
  refine ⟨hsteady.cell, fun t ht => ?_⟩
  rcases List.mem_cons.mp ht with rfl | ht
  · simp [Machine.entered]
  · exact hsteady.held t ht

/-- The machine after a context has been brought back. -/
def restored (m : Machine) (token : Nat) : Machine :=
  { m with
    cells := m.cells.set! m.cell (m.store.tokens.getD token default).previous
    store := { m.store with tokens := m.store.tokens.modify token fun t => { t with used := true } } }

theorem scope_restored (hcell : m.cell < m.cells.size) (token : Nat) :
    (m.restored token).scope = (m.store.tokens.getD token default).previous := by
  simp [restored, scope, hcell]

theorem token_restored (m : Machine) (token t : Nat) : (m.restored token).store.tokens.getD t default =
    if token = t ∧ t < m.store.tokens.size then { m.store.tokens.getD t default with used := true }
    else m.store.tokens.getD t default := by
  simp only [restored, Array.getD_eq_getD_getElem?, Array.getElem?_modify]
  by_cases ht : t < m.store.tokens.size
  · by_cases heq : token = t <;> simp [heq, ht]
  · simp [ht]

/-- To bring back a context uses the right to do so, and no other. -/
theorem leaves_restored {token : Nat} (h : token ∈ held) (m : Machine) : Leaves held m (m.restored token) where
  cell := rfl
  cells := by simp [restored]
  tokens := by simp [restored]
  previous t _ := by
    rw [token_restored]
    split <;> rfl
  same t _ ht := by
    rw [token_restored, if_neg]
    rintro ⟨rfl, -⟩
    exact ht h

end Machine

/-- The error that work has ended with. -/
def Outcome.error? {α : Type} : Outcome α → Option Value
  | .raised e => some e
  | _ => none

/-- How a block ends that an error ends, if something else is done about it first. -/
def Outcome.instead {α : Type} (e : Value) : Outcome Unit → Outcome α
  | .done _ => .raised e
  | .raised e' => .raised e'
  | .spent => .spent

namespace Work
variable {α : Type} {σ : Service} {m m' : Machine} {held : List Nat}

/-- What heeds the frame keeps the context, if it ends. -/
theorem Heeds.kept {w : Work α} (h : w.Heeds .contexts) (hσ : Frame.contexts.serves σ) (hends : (w σ m).1 ≠ .spent) :
    m.Kept (w σ m).2 := h.ends hσ trivial hends

theorem pushScope_eq (fields : LogContext) :
    pushScope fields σ m = (.done m.store.tokens.size, m.entered fields) := rfl

/-- A right that has not been used brings a context back in its cell. -/
theorem restoreScope_eq {token : Nat} (hcell : (m.store.tokens.getD token default).cell = m.cell)
    (hused : (m.store.tokens.getD token default).used = false) :
    restoreScope token σ m = (.done (), m.restored token) := by
  unfold restoreScope
  rw [machine_bind]
  dsimp only
  rw [hused, if_neg Bool.false_ne_true, if_neg (not_not_intro hcell)]
  rfl

theorem handling_restoreScope {token : Nat} (hcell : (m.store.tokens.getD token default).cell = m.cell)
    (hused : (m.store.tokens.getD token default).used = false) (e : Value) :
    handling e (restoreScope token) σ m = (.done (), m.restored token) := by
  let m₁ : Machine := { m with handling := e :: m.handling }
  have hrestore : restoreScope token σ m₁ = (.done (), m₁.restored token) := restoreScope_eq hcell hused
  unfold handling
  rw [modify_bind, bind_eq, attempt, hrestore]
  rfl

/-- What is left to do at the end of a block: its right is used, and its context is the one of before again. -/
theorem back_of_leaves (h : m.Steady held) {fields : LogContext} (hleaves : Machine.Leaves held (m.entered fields) m') :
    (m'.store.tokens.getD m.store.tokens.size default).cell = m'.cell ∧
      (m'.store.tokens.getD m.store.tokens.size default).used = false ∧
      (m'.restored m.store.tokens.size).scope = m.scope ∧ Machine.Leaves held m (m'.restored m.store.tokens.size) := by
  have hnew : m.store.tokens.size ∉ held := fun hmem => Nat.lt_irrefl _ (h.held _ hmem)
  have hlt : m.store.tokens.size < (m.entered fields).store.tokens.size := by simp [Machine.entered]
  have htoken : m'.store.tokens.getD m.store.tokens.size default = ⟨m.cell, m.scope, false⟩ :=
    (hleaves.same _ hlt hnew).trans (m.token_entered fields)
  have hbody : Machine.Leaves held m m' := (m.leaves_entered held fields).trans hleaves
  refine ⟨by rw [htoken, hbody.cell], by rw [htoken], ?_, ?_⟩
  · rw [Machine.scope_restored (h.leaves hbody).cell, htoken]
  · exact ((hbody.cons _).trans (Machine.leaves_restored (.head _) m')).of_cons (Nat.le_refl _)

/-- Inside a context the work is done, and then the context of before is brought back. -/
theorem withinScope_entered (values : Table Value) (w : Work α) :
    withinScope values w σ m = (do
      match ← attempt w with
      | .ok a =>
        restoreScope m.store.tokens.size
        return a
      | .error e =>
        handling e (restoreScope m.store.tokens.size)
        reraise e : Work α) σ (m.entered (m.scope.fields.merge values)) := rfl

/-- A context is brought back however the work inside of it ends. -/
theorem withinScope_eq (h : m.Steady held) (values : Table Value) (w : Work α)
    (hw : (w σ (m.entered (m.scope.fields.merge values))).1 ≠ .spent →
      Machine.Leaves held (m.entered (m.scope.fields.merge values)) (w σ (m.entered (m.scope.fields.merge values))).2) :
    withinScope values w σ m =
      match w σ (m.entered (m.scope.fields.merge values)) with
      | (.done a, m') => (.done a, m'.restored m.store.tokens.size)
      | (.raised e, m') => (.raised e, m'.restored m.store.tokens.size)
      | (.spent, m') => (.spent, m') := by
  rw [withinScope_entered, bind_eq, attempt]
  rcases hrun : w σ (m.entered (m.scope.fields.merge values)) with ⟨a | e | _, m'⟩
  · rw [hrun] at hw
    obtain ⟨hcell, hused, -⟩ := back_of_leaves h (hw nofun)
    dsimp only
    rw [bind_eq, restoreScope_eq hcell hused]
    rfl
  · rw [hrun] at hw
    obtain ⟨hcell, hused, -⟩ := back_of_leaves h (hw nofun)
    dsimp only
    rw [bind_eq, handling_restoreScope hcell hused]
    rfl
  · rfl

/-- The context of before is brought back, and the right to do so is the only one that is used for it. -/
theorem withinScope_back (h : m.Steady held) (values : Table Value) (w : Work α)
    (hw : (w σ (m.entered (m.scope.fields.merge values))).1 ≠ .spent →
      Machine.Leaves held (m.entered (m.scope.fields.merge values)) (w σ (m.entered (m.scope.fields.merge values))).2)
    (hends : (withinScope values w σ m).1 ≠ .spent) :
    (withinScope values w σ m).2.scope = m.scope ∧ Machine.Leaves held m (withinScope values w σ m).2 := by
  rw [withinScope_eq h values w hw] at hends ⊢
  rcases hrun : w σ (m.entered (m.scope.fields.merge values)) with ⟨a | e | _, m'⟩
  · rw [hrun] at hw
    exact (back_of_leaves h (hw nofun)).2.2
  · rw [hrun] at hw
    exact (back_of_leaves h (hw nofun)).2.2
  · rw [hrun] at hends
    exact absurd rfl hends

/-! ### Timed steps -/

/-- The context in which a timed step is done. -/
def stepContext (c : LogContext) (id : Value) (values : Table Value) : LogContext :=
  c.merge ([("span_id", id), ("parent_span_id", c.spanId)] ++ values.filter fun e => isScopeName e.1)

/-- The current span of a timed step is its own. -/
theorem stepContext_spanId (c : LogContext) (n : Nat) (values : Table Value) :
    (stepContext c (.spanId n) values).spanId = .spanId n := by
  let ids : Table Value := [("span_id", .spanId n), ("parent_span_id", c.spanId)]
  let shared := values.filter fun e => isScopeName e.1
  have hsplit : stepContext c (.spanId n) values = (c.merge ids).merge shared := List.foldl_append
  have hshared : ∀ e ∈ shared, e.1 = "span_id" → e.2 = .null := by
    intro e he heq
    have hname : isScopeName e.1 = true := (List.mem_filter.mp he).2
    rw [heq] at hname
    cases hname
  have hids : (c.merge ids).spanId = .spanId n := by
    by_cases hnull : c.spanId = .null <;> simp [ids, LogContext.merge, LogContext.setField, hnull]
  rw [hsplit, ← hids]
  exact ((c.merge ids).overrides_merge shared).field_eq (by decide) hshared

/-- What a timed step is about: its span's metrics. -/
def stepMetrics (values : Table Value) : Table Value := values.filter fun e => !isScopeName e.1

end Work

namespace Machine

/-- The span that is opened next for a step, with the mapping of its metrics. -/
def nextSpan (m : Machine) (event : Value) : Span :=
  ⟨event, .spanId m.spanIds, m.scope.fields.spanId, .float 0, .null, .dict m.store.dicts.size, .null, []⟩

/-- The machine after a span has been opened for a step. -/
def spanned (m : Machine) (event : Value) (metrics : Table Value) : Machine :=
  { m with
    spanIds := m.spanIds + 1
    store := { m.store with
      dicts := m.store.dicts.push (.ofTable metrics)
      spans := m.store.spans.push (m.nextSpan event) } }

/-- The step that is opened next. -/
def nextStep (m : Machine) (event level : Value) : OpenStep :=
  ⟨event, level, m.store.spans.size, m.store.tokens.size, m.logging.chain⟩

/-- The machine in the context of the step that is opened next. -/
def begun (m : Machine) (event : Value) (values : Table Value) : Machine :=
  (m.spanned event (Work.stepMetrics values)).entered (Work.stepContext m.scope.fields (.spanId m.spanIds) values)

theorem kept_spanned (m : Machine) (event : Value) (metrics : Table Value) : m.Kept (m.spanned event metrics) :=
  .of_eq rfl rfl rfl

end Machine

namespace Work
variable {α : Type} {σ : Service} {m m' : Machine} {held : List Nat}

theorem newSpan_spanned (event : Value) (metrics : Table Value) :
    newSpan event metrics σ m = (.done m.store.spans.size, m.spanned event metrics) := rfl

/-- What a timed step does first in its context: it writes its first entry, if it is to write one. -/
def firstEntry (step : OpenStep) (span : Span) (start : Value) (values : Table Value) : Work OpenStep := do
  if ← truth start then
    let fields := Table.merge [("span_id", span.id)] (stepMetrics values)
    let fields := if ← truth span.parent then fields.set "parent_span_id" span.parent else fields
    write step.chain "unified.timing" .debug (← stepEvent step.event ".start") fields
    return step
  else return { step with chain := none }

theorem heeds_firstEntry {F : Frame} (step : OpenStep) (span : Span) (start : Value) (values : Table Value) :
    (firstEntry step span start values).Heeds F := by
  refine heeds_bind (heeds_truth _) fun logs => ?_
  split <;> grind

theorem tells_firstEntry {F : Frame} (step : OpenStep) (span : Span) (start : Value) (values : Table Value) :
    (firstEntry step span start values).Tells F fun opened => opened.token = step.token := by
  refine tells_bind fun logs => ?_
  split
  · exact tells_bind fun nested => tells_bind fun text => tells_bind fun _ => tells_pure rfl
  · exact tells_pure rfl

/-- A timed step is opened in its context. If its first entry fails, the context of before is brought back. -/
theorem openStep_begun (event start level : Value) (values : Table Value) :
    openStep event start level values σ m =
      (attempt (firstEntry (m.nextStep event level) (m.nextSpan event) start values) >>= fun started =>
        match started with
        | .ok step => pure step
        | .error e => do
          handling e (restoreScope m.store.tokens.size)
          reraise e : Work OpenStep) σ (m.begun event values) := by
  let metrics := values.filter fun e => !isScopeName e.1
  have hspan : (m.spanned event metrics).store.spans.getD m.store.spans.size default = m.nextSpan event := by
    simp [Machine.spanned]
  unfold openStep
  rw [bind_eq, show newSpan event metrics σ m = _ from newSpan_spanned event metrics]
  dsimp only
  rw [machine_bind, hspan]
  rfl

/-- What opening a timed step comes to: the step is open, in its context, or the context is the one of before. -/
structure Opened (held : List Nat) (values : Table Value) (m : Machine) (out : Outcome OpenStep × Machine) : Prop where
  done : ∀ {step}, out.1 = .done step → ∃ m₁ : Machine, m.Kept m₁ ∧ step.token = m₁.store.tokens.size ∧
    (m₁.entered (stepContext m.scope.fields (.spanId m.spanIds) values)).Kept out.2
  raised : ∀ {e}, out.1 = .raised e → out.2.scope = m.scope ∧ Machine.Leaves held m out.2

theorem Opened.leaves {values : Table Value} {step : OpenStep} (h : Opened held values m (.done step, m')) :
    Machine.Leaves held m m' := by
  obtain ⟨m₁, hkept, -, hkept'⟩ := h.done rfl
  exact ((hkept.leaves held).trans (m₁.leaves_entered held _)).trans (hkept'.leaves held)

theorem opened_openStep (hσ : Frame.contexts.serves σ) (h : m.Steady held) (event start level : Value)
    (values : Table Value) : Opened held values m (openStep event start level values σ m) := by
  have hkept := m.kept_spanned event (stepMetrics values)
  have hsteady := h.leaves (hkept.leaves held)
  have hfirst := heeds_firstEntry (F := .contexts) (m.nextStep event level) (m.nextSpan event) start values
  have htoken := tells_firstEntry (F := .contexts) (m.nextStep event level) (m.nextSpan event) start values
  rw [openStep_begun, bind_eq, attempt]
  generalize firstEntry (m.nextStep event level) (m.nextSpan event) start values = first at hfirst htoken
  have hkeeps := hfirst.kept (m := m.begun event values) hσ
  have htells := htoken σ hσ (m.begun event values)
  rcases hrun : first σ (m.begun event values) with ⟨opened | e | _, m'⟩
  · rw [hrun] at hkeeps htells
    refine ⟨fun h => ?_, (nomatch ·)⟩
    cases h
    exact ⟨_, hkept, htells opened rfl, hkeeps nofun⟩
  · rw [hrun] at hkeeps
    obtain ⟨hcell, hused, hscope, hleaves⟩ := back_of_leaves hsteady ((hkeeps nofun).leaves held)
    have hrestore : handling e (restoreScope m.store.tokens.size) σ m' = (.done (), m'.restored m.store.tokens.size) :=
      handling_restoreScope hcell hused e
    dsimp only
    rw [bind_eq, hrestore]
    refine ⟨(nomatch ·), fun _ => ?_⟩
    exact ⟨hscope.trans hkept.scope, (hkept.leaves held).trans hleaves⟩
  · exact ⟨(nomatch ·), (nomatch ·)⟩

/-- Whether handlers of ordinary errors see an error. -/
def ordinary (s : Store) : Value → Bool
  | .fault i => (s.fault i).isOrdinary
  | _ => true

theorem gives_isOrdinary (e : Value) (m : Machine) : (isOrdinary e).Gives m (ordinary m.store e) m := by
  intro σ
  cases e <;> rfl

/-- The last entry of a timed step that ends with an ordinary error. -/
def failedEntry (step : OpenStep) (e : Value) : Work Unit := do
  stopSpan step.span
  updateSpan step.span fun span => { span with error := e }
  handling e (writeLast step (.str "error") ".error")

theorem heeds_failedEntry {F : Frame} (step : OpenStep) (e : Value) : (failedEntry step e).Heeds F := by
  unfold failedEntry
  grind

end Work

namespace Machine

/-- The machine after a span has been changed. -/
def respanned (m : Machine) (i : Nat) (f : Span → Span) : Machine :=
  { m with store := { m.store with spans := m.store.spans.modify i f } }

/-- Whether a right to bring a context back can be used. -/
def Restores (m : Machine) (token : Nat) : Prop :=
  (m.store.tokens.getD token default).cell = m.cell ∧ (m.store.tokens.getD token default).used = false

end Machine

namespace Work
variable {α : Type} {σ : Service} {m m' : Machine} {held : List Nat}

/-- A span as it ends, unless it has ended. -/
def ended (span : Span) : Span := if span.endedAt = .null then { span with endedAt := .float 0 } else span

/-- A timed step that ends well brings the context of before back, and writes its last entry there. -/
theorem closeStep_ok {step : OpenStep} (hback : m.Restores step.token) (a : α) :
    closeStep step (.ok a) σ m =
      (writeLast step step.level ".end" >>= fun _ => pure a) σ ((m.respanned step.span ended).restored step.token) := by
  have hrestore : restoreScope step.token σ (m.respanned step.span ended) =
      (.done (), (m.respanned step.span ended).restored step.token) := restoreScope_eq hback.1 hback.2
  have hstop : closeStep step (.ok a) σ m = (restoreScope step.token >>= fun _ =>
      writeLast step step.level ".end" >>= fun _ => pure a) σ (m.respanned step.span ended) := rfl
  rw [hstop, bind_eq, hrestore]

/-- Once the last entry of a timed step is written, or writing it has failed, the context of before is brought back. -/
theorem restore_release {step : OpenStep} (hback : m.Restores step.token) (e : Value) (last : Except Value Unit) :
    (do handling e (restoreScope step.token); let _ ← release last; reraise e : Work α) σ m =
      match last with
      | .ok _ => (.raised e, m.restored step.token)
      | .error e' => (.raised e', m.restored step.token) := by
  rw [bind_eq, handling_restoreScope hback.1 hback.2]
  cases last <;> rfl

/-- A timed step that ends with an error brings the context of before back. The error goes on, unless it is an ordinary
one and writing its entry fails. -/
theorem closeStep_error {step : OpenStep} (hback : m.Restores step.token) (e : Value)
    (hentry : (failedEntry step e σ m).1 ≠ .spent → (failedEntry step e σ m).2.Restores step.token) :
    closeStep (α := α) step (.error e) σ m =
      if ordinary m.store e then
        match failedEntry step e σ m with
        | (.done _, m') => (.raised e, m'.restored step.token)
        | (.raised e', m') => (.raised e', m'.restored step.token)
        | (.spent, m') => (.spent, m')
      else (.raised e, m.restored step.token) := by
  have hclose : closeStep (α := α) step (.error e) σ m = ((isOrdinary e) >>= fun seen =>
      (if seen then attempt (failedEntry step e) else pure (.ok ())) >>= fun last => do
        handling e (restoreScope step.token)
        let _ ← release last
        reraise e : Work α) σ m := by
    unfold closeStep
    dsimp only
    rw [(gives_isOrdinary e m).bind_eq, (gives_isOrdinary e m).bind_eq]
    cases ordinary m.store e <;> rfl
  rw [hclose, (gives_isOrdinary e m).bind_eq]
  cases ordinary m.store e with
  | false => exact restore_release hback e (.ok ())
  | true =>
    rw [if_pos rfl, if_pos rfl, bind_eq, attempt]
    rcases hrun : failedEntry step e σ m with ⟨u | e' | _, m'⟩
    · rw [hrun] at hentry
      exact restore_release (hentry nofun) e (.ok ())
    · rw [hrun] at hentry
      exact restore_release (hentry nofun) e (.error e')
    · rfl

/-- What a timed step comes to around some work: the context of before is brought back. Inside of it the context is the
one of the step. An error goes on, unless it is an ordinary one and writing its entry fails. -/
structure Stepped (held : List Nat) (values : Table Value) (σ : Service) (w : OpenStep → Work α) (m : Machine)
    (opened : Outcome OpenStep × Machine) (out : Outcome α × Machine) : Prop where
  back : out.1 ≠ .spent → out.2.scope = m.scope ∧ Machine.Leaves held m out.2
  inside : ∀ {step m₁}, opened = (.done step, m₁) →
    m₁.scope.fields = stepContext m.scope.fields (.spanId m.spanIds) values
  raises : ∀ {step m₁ e m₂}, opened = (.done step, m₁) → w step σ m₁ = (.raised e, m₂) →
    out.1 = if ordinary m₂.store e then Outcome.instead e (failedEntry step e σ m₂).1 else .raised e

theorem stepped_closeStep (hσ : Frame.contexts.serves σ) (h : m.Steady held) (event start level : Value)
    (values : Table Value) (w : OpenStep → Work α)
    (hw : ∀ {step m₁}, openStep event start level values σ m = (.done step, m₁) → (w step σ m₁).1 ≠ .spent →
      Machine.Leaves held m₁ (w step σ m₁).2) :
    Stepped held values σ w m (openStep event start level values σ m)
      ((do
        let step ← openStep event start level values
        closeStep step (← attempt (w step)) : Work α) σ m) := by
  have hopened := opened_openStep hσ h event start level values
  rw [bind_eq]
  rcases hopen : openStep event start level values σ m with ⟨step | e | _, m₁⟩
  · rw [hopen] at hopened
    obtain ⟨m₀, hkept, htoken, hkept'⟩ := hopened.done rfl
    have hsteady := h.leaves (hkept.leaves held)
    have hentered := m₀.scope_entered hsteady.cell (stepContext m.scope.fields (.spanId m.spanIds) values)
    have hscope : m₁.scope.fields = stepContext m.scope.fields (.spanId m.spanIds) values := by
      rw [hkept'.scope, hentered]
    -- Whatever becomes of the body, the right to bring back the context of before is there at its end.
    have hunused {m' : Machine} (hleaves : Machine.Leaves held m₁ m') : m'.Restores step.token := by
      obtain ⟨hcell, hused, -⟩ := back_of_leaves hsteady ((hkept'.leaves held).trans hleaves)
      rw [htoken]
      exact ⟨hcell, hused⟩
    have hback {m' : Machine} (hleaves : Machine.Leaves held m₁ m') :
        (m'.restored step.token).scope = m.scope ∧ Machine.Leaves held m (m'.restored step.token) := by
      obtain ⟨-, -, hscope, hleaves⟩ := back_of_leaves hsteady ((hkept'.leaves held).trans hleaves)
      rw [htoken]
      exact ⟨hscope.trans hkept.scope, (hkept.leaves held).trans hleaves⟩
    have hbody := hw hopen
    dsimp only
    rw [bind_eq, attempt]
    rcases hrun : w step σ m₁ with ⟨a | e | _, m₂⟩
    · rw [hrun] at hbody
      have hleaves := hbody nofun
      have hkept₃ : m₂.Kept (m₂.respanned step.span ended) := .of_eq rfl rfl rfl
      obtain ⟨hscope₃, hleaves₃⟩ := hback (hleaves.trans (hkept₃.leaves held))
      have hlast : (writeLast step step.level ".end" >>= fun _ => pure a : Work α).Heeds .contexts := by grind
      dsimp only
      rw [closeStep_ok (hunused hleaves) a]
      refine ⟨fun hends => ?_, fun h => ?_, fun h hraised => ?_⟩
      · have hend := hlast.kept hσ hends
        exact ⟨hend.scope.trans hscope₃, hleaves₃.trans (hend.leaves held)⟩
      · cases h
        exact hscope
      · cases h
        cases hrun.symm.trans hraised
    · rw [hrun] at hbody
      have hleaves := hbody nofun
      have hfailed := (heeds_failedEntry step e).kept (m := m₂) hσ
      have hclose := closeStep_error (α := α) (hunused hleaves) e fun hends =>
        hunused (hleaves.trans ((hfailed hends).leaves held))
      dsimp only
      rw [hclose]
      refine ⟨fun hends => ?_, fun h => ?_, fun h hraised => ?_⟩
      · by_cases hordinary : ordinary m₂.store e = true
        · rw [if_pos hordinary] at hends ⊢
          rcases hentry : failedEntry step e σ m₂ with ⟨u | e' | _, m₃⟩
          · rw [hentry] at hfailed
            exact hback (hleaves.trans ((hfailed nofun).leaves held))
          · rw [hentry] at hfailed
            exact hback (hleaves.trans ((hfailed nofun).leaves held))
          · rw [hentry] at hends
            exact absurd rfl hends
        · rw [if_neg hordinary]
          exact hback hleaves
      · cases h
        exact hscope
      · cases h
        cases hrun.symm.trans hraised
        split
        · rcases failedEntry step e σ m₂ with ⟨u | e' | _, m₃⟩ <;> rfl
        · rfl
    · exact ⟨fun h => absurd rfl h, fun h => by cases h; exact hscope, fun h h' => by cases h; cases hrun.symm.trans h'⟩
  · rw [hopen] at hopened
    obtain ⟨hscope, hleaves⟩ := hopened.raised rfl
    exact ⟨fun _ => ⟨hscope, hleaves⟩, (nomatch ·), (nomatch ·)⟩
  · exact ⟨fun h => absurd rfl h, (nomatch ·), (nomatch ·)⟩

end Work
end Treeworks
