import Mathlib.Logic.Function.Basic
import Treeworks.Proofs.Log.Scopes
import Treeworks.Proofs.Pending.Loop
import Treeworks.Proofs.Pending.Wares
import Treeworks.Proofs.Run.Scene

/-! Calls of `process` in flight on one machine. A call goes on in several lines of control: in that of its task, in those
of the settle callbacks of its steps, and in those of the coroutines that it waits for. Each has a cell of its own for the
logging context, which began as a copy. Here it is noted what each cell is for, and of which call each run is. -/
namespace Treeworks

/-! ### Cells and handles -/

namespace Machine
variable {m : Machine}

/-- The logging context in a cell. -/
def scopeAt (m : Machine) (k : Nat) : Scope := m.cells.getD k ⟨0, .empty⟩

/-- The machine with another runner. -/
def withRunner (m : Machine) (r : Runner) : Machine := { m with store := { m.store with runner := r } }

theorem scopeAt_set (hcell : m.cell < m.cells.size) (x : Scope) (k : Nat) :
    (m.cells.set! m.cell x).getD k ⟨0, .empty⟩ = if k = m.cell then x else m.scopeAt k := by
  rw [scopeAt, Array.getD_eq_getD_getElem?, Array.getD_eq_getD_getElem?, Array.set!_eq_setIfInBounds,
    Array.getElem?_setIfInBounds]
  by_cases hk : k = m.cell
  · simp [hk, hcell]
  · rw [if_neg (Ne.symm hk), if_neg hk]

theorem scopeAt_begun (hcell : m.cell < m.cells.size) (event : Value) (values : Table Value) (k : Nat) :
    (m.begun event values).scopeAt k =
      if k = m.cell then ⟨m.stamps + 1, Work.stepContext m.scope.fields (.spanId m.spanIds) values⟩ else m.scopeAt k :=
  scopeAt_set hcell _ k

theorem scopeAt_restored (hcell : m.cell < m.cells.size) (token k : Nat) :
    (m.restored token).scopeAt k = if k = m.cell then (m.store.tokens.getD token default).previous else m.scopeAt k :=
  scopeAt_set hcell _ k

theorem size_cells_begun (m : Machine) (event : Value) (values : Table Value) :
    (m.begun event values).cells.size = m.cells.size := Array.size_setIfInBounds

theorem size_cells_restored (m : Machine) (token : Nat) : (m.restored token).cells.size = m.cells.size :=
  Array.size_setIfInBounds

theorem size_tokens_begun (m : Machine) (event : Value) (values : Table Value) :
    (m.begun event values).store.tokens.size = m.store.tokens.size + 1 := Array.size_push _

theorem size_tokens_restored (m : Machine) (token : Nat) :
    (m.restored token).store.tokens.size = m.store.tokens.size := Array.size_modify

/-- The right that comes with a new step brings back the context that it replaces. -/
theorem token_begun (m : Machine) (event : Value) (values : Table Value) :
    (m.begun event values).store.tokens.getD m.store.tokens.size default = ⟨m.cell, m.scope, false⟩ :=
  token_entered (m.spanned event (Work.stepMetrics values)) _

theorem token_begun_of_lt (event : Value) (values : Table Value) {t : Nat} (ht : t < m.store.tokens.size) :
    (m.begun event values).store.tokens.getD t default = m.store.tokens.getD t default :=
  (leaves_entered [] (m.spanned event (Work.stepMetrics values)) _).same t ht List.not_mem_nil

theorem token_restored_of_ne {token t : Nat} (ht : token ≠ t) :
    (m.restored token).store.tokens.getD t default = m.store.tokens.getD t default := by
  rw [token_restored, if_neg fun h => ht h.1]

end Machine

/-- A timed step that is open has the right to bring back the context of before, and its own context is the current one. -/
theorem Work.begun_openStep {σ : Service} {m m' : Machine} {event start level : Value} {values : Table Value}
    {step : OpenStep} (hσ : Frame.contexts.serves σ)
    (hopen : openStep event start level values σ m = (.done step, m')) :
    step.token = m.store.tokens.size ∧ (m.begun event values).Kept m' := by
  have hfirst := heeds_firstEntry (F := .contexts) (m.nextStep event level) (m.nextSpan event) start values
  have htoken := tells_firstEntry (F := .contexts) (m.nextStep event level) (m.nextSpan event) start values
  rw [openStep_begun, bind_eq, attempt] at hopen
  generalize firstEntry (m.nextStep event level) (m.nextSpan event) start values = first at hfirst htoken hopen
  have hkeeps := hfirst.kept (m := m.begun event values) hσ
  have htells := htoken σ hσ (m.begun event values)
  rcases hrun : first σ (m.begun event values) with ⟨opened | e | _, m₁⟩
  · rw [hrun] at hkeeps htells hopen
    cases hopen
    exact ⟨htells _ rfl, hkeeps (by simp)⟩
  · rw [hrun] at hopen
    dsimp only at hopen
    rw [bind_eq] at hopen
    rcases hback : handling e (restoreScope m.store.tokens.size) σ m₁ with ⟨_ | _ | _, m₂⟩
    all_goals
      rw [hback] at hopen
      cases hopen
  · rw [hrun] at hopen
    cases hopen

/-- However a timed step ends, closing it brings back the context that its right is for. -/
theorem Work.closeStep_scope {α : Type} {σ : Service} {m : Machine} {step : OpenStep} {before : Scope}
    (hσ : Frame.contexts.serves σ) (hcell : m.cell < m.cells.size) (hlt : step.token < m.store.tokens.size)
    (htoken : m.store.tokens.getD step.token default = ⟨m.cell, before, false⟩) (result : Except Value α)
    (hends : (closeStep step result σ m).1 ≠ .spent) : (closeStep step result σ m).2.scope = before := by
  have hback {m' : Machine} (hkept : m.Kept m') :
      m'.Restores step.token ∧ (m'.restored step.token).scope = before := by
    have htoken' := (hkept.tokens.same _ hlt default).trans htoken
    have hcell' : m'.cell < m'.cells.size := by
      rw [hkept.cell]
      exact Nat.lt_of_lt_of_le hcell hkept.cells
    refine ⟨⟨by rw [htoken', hkept.cell], by rw [htoken']⟩, ?_⟩
    rw [Machine.scope_restored hcell', htoken']
  cases result with
  | ok a =>
    have hspan : m.Kept (m.respanned step.span ended) := .of_eq rfl rfl rfl
    have hlast : (writeLast step step.level ".end" >>= fun _ => pure a : Work α).Heeds .contexts := by grind
    rw [closeStep_ok (hback (.refl m)).1] at hends ⊢
    exact (hlast.kept hσ hends).scope.trans (hback hspan).2
  | error e =>
    have hfailed := (heeds_failedEntry step e).kept (m := m) hσ
    rw [closeStep_error (hback (.refl m)).1 e fun hentry => (hback (hfailed hentry)).1] at hends ⊢
    by_cases hordinary : ordinary m.store e = true
    · rw [if_pos hordinary] at hends ⊢
      rcases hrun : failedEntry step e σ m with ⟨u | e' | _, m'⟩
      · rw [hrun] at hfailed
        exact (hback (hfailed (by simp))).2
      · rw [hrun] at hfailed
        exact (hback (hfailed (by simp))).2
      · rw [hrun] at hends
        exact absurd rfl hends
    · rw [if_neg hordinary]
      exact (hback (.refl m)).2

namespace Loop
variable {l : Loop} {h x : Handle}

theorem holds_ready {rest : List Handle} (hready : l.ready = x :: rest) (hh : Holds { l with ready := rest } h) :
    l.Holds h :=
  hh.imp_left fun hmem => hready ▸ List.mem_cons_of_mem x hmem

theorem holds_schedule (hh : (l.schedule x).Holds h) : l.Holds h ∨ h = x := by
  rcases hh with hready | hwatched
  · have hmem : h ∈ l.ready ++ [x] := hready
    rcases List.mem_append.mp hmem with hold | hnew
    · exact .inl (.inl hold)
    · exact .inr (List.mem_singleton.mp hnew)
  · exact .inl (.inr hwatched)

theorem holds_watch {f : Nat} (hh : (l.watch f x).Holds h) : l.Holds h ∨ h = x := by
  unfold watch at hh
  split at hh
  · exact holds_schedule hh
  · rcases hh with hready | ⟨i, hi⟩
    · exact .inl (.inl hready)
    · rw [future_update] at hi
      split at hi
      · rcases List.mem_append.mp hi with hold | hnew
        · exact .inl (.inr ⟨i, hold⟩)
        · exact .inr (List.mem_singleton.mp hnew)
      · exact .inl (.inr ⟨i, hi⟩)

theorem holds_newTask {coroutine cell : Nat} (hh : (l.newTask coroutine cell).2.Holds h) :
    l.Holds h ∨ h.callback.awaits? = none := by
  rcases holds_schedule hh with (hready | ⟨i, hi⟩) | rfl
  · exact .inl (.inl hready)
  · simp only [future, Array.getD_eq_getD_getElem?, Array.getElem?_push] at hi
    split at hi
    · cases hi
    · refine .inl (.inr ⟨i, ?_⟩)
      rwa [future, Array.getD_eq_getD_getElem?]
  · exact .inr rfl

end Loop

/-! ### Calls and their lines of control -/

/-- What a cell is for: the code of a call, a coroutine that a step of a call waits for, or neither. -/
inductive Line
  | free
  | drives (call : Nat)
  | awaits (call : Nat)
  deriving DecidableEq

/-- The call that a cell is for. -/
def Line.call? : Line → Option Nat
  | .free => none
  | .drives c | .awaits c => some c

/-- A call of `process`: the name of its processor, its span, the context that it goes on in; and the cell of its task,
what was there before, and the right to bring that back. -/
structure Strand where
  processor : Value
  span : Nat
  context : LogContext
  cell : Nat
  before : Scope
  token : Nat

/-- Whether a context carries the processor and the span of a call. -/
structure Strand.Marks (x : Strand) (fields : LogContext) : Prop where
  processor : fields.processor = x.processor
  span : fields.spanId = .spanId x.span

/-- What the step of a call is opened with. -/
def Strand.values (processor path : Value) (parsed : Bool) : Table Value :=
  [("processor", processor), ("stage", .str "process"), ("file_path", path), ("parsed", .bool parsed)]

/-- A new call on a machine. -/
def Strand.new (m : Machine) (processor path : Value) (parsed : Bool) : Strand where
  processor := processor
  span := m.spanIds
  context := Work.stepContext m.scope.fields (.spanId m.spanIds) (values processor path parsed)
  cell := m.cell
  before := m.scope
  token := m.store.tokens.size

/-- A call goes on in a context with its own processor and span. -/
theorem Strand.marks_new (m : Machine) {processor : Value} (hprocessor : processor ≠ .null) (path : Value) (parsed : Bool) :
    (Strand.new m processor path parsed).Marks (Strand.new m processor path parsed).context where
  span := Work.stepContext_spanId _ _ _
  processor := by
    let ids : Table Value := [("span_id", .spanId m.spanIds), ("parent_span_id", m.scope.fields.spanId)]
    let rest : Table Value := [("stage", .str "process"), ("file_path", path)]
    have hsplit : (Strand.new m processor path parsed).context =
        ((m.scope.fields.merge ids).setField "processor" processor).merge rest := by
      simp [Strand.new, Strand.values, Work.stepContext, Work.isScopeName, LogContext.merge, ids, rest, hprocessor]
    rw [hsplit]
    by_cases hpath : path = .null <;> simp [rest, LogContext.merge, LogContext.setField, hpath, Strand.new]

/-- A machine, what its cells are for, the calls that its runs are of, and all calls so far. `spans` has for each span that
was opened in a line of a call the call and the span above. A step that is open in a line of a call within one part of
it has its right in `within`. `turn` is the handle that is being run, with the cell of before. -/
structure Strands where
  machine : Machine
  line : Nat → Line
  owner : Nat → Option Nat
  calls : Nat → Option Strand
  spans : List (Nat × Value)
  within : Option Nat
  turn : Option (Handle × Nat)

namespace Strands
variable {s : Strands}

/-- The runner of the machine. -/
abbrev runner (s : Strands) : Runner := s.machine.store.runner

/-- What the current cell is for. -/
def current (s : Strands) : Line := s.line s.machine.cell

/-- Whether no run of a call is on the stack. -/
def Quiet (s : Strands) : Prop := ∀ a ∈ s.runner.stack, s.owner a.run = none

/-- Whether a call is open: its task has not gone beyond its step. -/
def Open (s : Strands) (c : Nat) (x : Strand) : Prop := s.calls c = some x ∧ s.line x.cell = .drives c

/-- Whether a right to bring a context back belongs to an open call, or to what is open within one. -/
def Held (s : Strands) (t : Nat) : Prop := s.within = some t ∨ ∃ c x, s.Open c x ∧ x.token = t

/-- What code does besides: it may make wares, steps, cells, futures, tasks and spans and may settle and cancel, but it makes
no settle callbacks and no moves. It replaces no context but that in its own cell, and that only where neither it nor what
called it is part of a call, or within a step. -/
structure Outside (s : Strands) (m : Machine) : Prop where
  runner : ∃ wares steps, m.store.runner = { s.runner with wares := wares, steps := steps }
  cell : m.cell = s.machine.cell
  cells : s.machine.cells.size ≤ m.cells.size
  others : ∀ k < s.machine.cells.size, k ≠ s.machine.cell → m.scopeAt k = s.machine.scopeAt k
  scope : s.current = .free ∨ s.within ≠ none ∨ m.scope = s.machine.scope
  spanIds : s.machine.spanIds ≤ m.spanIds
  tokens : s.machine.store.tokens.size ≤ m.store.tokens.size
  held : ∀ t, s.Held t → m.store.tokens.getD t default = s.machine.store.tokens.getD t default
  handles : ∀ h, m.loop.Holds h → s.machine.loop.Holds h ∨ h.callback.awaits? = none

/-- The moves that can come. Steps of calls complete only from their calls: their continuations are called while a run of
the call is on the stack, and their futures are told of by their settle callbacks. -/
def Permits (s : Strands) : Move → Prop
  | .start .. | .watching _ => False
  | .next t _ => ∀ c, s.owner (s.runner.ticket t).run = some c → s.within = none ∧ ∃ a ∈ s.runner.stack, s.owner a.run = some c
  | .settled t f _ => ∀ c, s.owner (s.runner.ticket t).run = some c → s.within = none ∧ ∃ k o, s.turn = some (⟨.settled t f, k⟩, o)
  | .found _ | .returned .. | .raised .. => ∀ a ∈ s.runner.stack.head?, s.owner a.run ≠ none → s.within = none

/-- Begins to run a handle. -/
def enter (s : Strands) (h : Handle) (rest : List Handle) : Strands :=
  { s with
    machine := { s.machine with cell := h.cell, loop := { s.machine.loop with ready := rest } }
    turn := some (h, s.machine.cell) }

/-- Ends to run a handle. -/
def leave (s : Strands) (outer : Nat) : Strands := { s with machine := { s.machine with cell := outer }, turn := none }

/-- Makes a move. -/
def move (s : Strands) (m : Move) : Strands := { s with machine := s.machine.withRunner (s.runner.react m).1 }

/-- Begins a run of a call or of none. -/
def start (s : Strands) (call : Option Nat) (ware : Nat) (inputs : List Value) (done : Value) : Strands :=
  { s.move (.start ware inputs done) with owner := Function.update s.owner s.runner.runs.size call }

/-- Watches a future for a step of the topmost run. The settle callback has a cell of its own. -/
def await (s : Strands) (a : Activation) (t f : Nat) : Strands :=
  let m := s.machine
  { s with
    machine := Machine.withRunner
      { m with cells := m.cells.push m.scope, loop := m.loop.watch f ⟨.settled t f, m.cells.size⟩ }
      (s.runner.react (.watching f)).1
    line := Function.update s.line m.cells.size ((s.owner a.run).elim .free .drives) }

/-- Makes a task for a coroutine that a step of a call has given. -/
def spawn (s : Strands) (c coroutine : Nat) : Strands :=
  let m := s.machine
  { s with
    machine := { m with cells := m.cells.push m.scope, loop := (m.loop.newTask coroutine m.cells.size).2 }
    line := Function.update s.line m.cells.size (.awaits c) }

/-- Begins a call. -/
def process (s : Strands) (c : Nat) (processor path : Value) (parsed : Bool) : Strands :=
  let m := s.machine
  { s with
    machine := m.begun (.str "pipeline.process") (Strand.values processor path parsed)
    line := Function.update s.line m.cell (.drives c)
    calls := Function.update s.calls c (some (.new m processor path parsed)) }

/-- Opens a timed step in a line of a call. -/
def span (s : Strands) (c : Nat) (event : Value) (values : Table Value) : Strands :=
  { s with
    machine := s.machine.begun event values
    spans := (c, (s.machine.nextSpan event).parent) :: s.spans }

/-- Opens a timed step that is closed before anything else comes. -/
def enclose (s : Strands) (c : Nat) (event : Value) (values : Table Value) : Strands :=
  { s.span c event values with within := some s.machine.store.tokens.size }

/-- Closes it. -/
def disclose (s : Strands) (t : Nat) : Strands := { s with machine := s.machine.restored t, within := none }

/-- Opens a timed step around the rest of a coroutine that a call waits for, or a part of it that waits for others. -/
def depart (s : Strands) (c : Nat) (event : Value) (values : Table Value) : Strands :=
  { s.span c event values with line := Function.update s.line s.machine.cell .free }

/-- Ends a call. -/
def conclude (s : Strands) (x : Strand) : Strands :=
  { s with machine := s.machine.restored x.token, line := Function.update s.line s.machine.cell .free }

/-- What can happen next. Handles are run one at a time and to their end. Calls begin and end in tasks of their own, in any
order; what belongs to a call is begun in a line of it. -/
inductive Step (base : Nat → List Nat) (s : Strands) (τ : History) : Strands → History → Prop
  | register (ware step : Nat) : Step base s τ s (τ ++ [.registered ware step])
  | outside {m : Machine} : s.Outside m → Step base s τ { s with machine := m } τ
  | enter {h : Handle} {rest : List Handle} : s.turn = none → s.within = none → s.Quiet →
      s.machine.loop.ready = h :: rest → h.cell < s.machine.cells.size → Step base s τ (s.enter h rest) τ
  | leave {h : Handle} {outer : Nat} : s.turn = some (h, outer) → s.within = none → s.Quiet → Step base s τ (s.leave outer) τ
  | start (call : Option Nat) (ware : Nat) (inputs : List Value) (done : Value) :
      (∀ c, call = some c → s.current = .drives c ∧ s.within = none) →
        Step base s τ (s.start call ware inputs done) (τ ++ s.runner.deeds (.start ware inputs done))
  | move {m : Move} : s.runner.Admits (τ.registry base) m → s.Permits m → Step base s τ (s.move m) (τ ++ s.runner.deeds m)
  | await {a : Activation} {rest : List Activation} {t : Nat} (f : Nat) : s.runner.stack = a :: rest → a.wait = .settling t →
      (s.owner a.run ≠ none → s.within = none) → Step base s τ (s.await a t f) (τ ++ s.runner.deeds (.watching f))
  | spawn {a : Activation} {rest : List Activation} {t c : Nat} (coroutine : Nat) : s.runner.stack = a :: rest →
      a.wait = .settling t → s.owner a.run = some c → s.within = none → Step base s τ (s.spawn c coroutine) τ
  | process (c : Nat) (processor path : Value) (parsed : Bool) : s.current = .free → s.within = none →
      s.calls c = none → processor ≠ .null → Step base s τ (s.process c processor path parsed) τ
  | enclose {c : Nat} (event : Value) (values : Table Value) : s.current.call? = some c → s.within = none →
      Step base s τ (s.enclose c event values) τ
  | disclose {t : Nat} : s.within = some t → Step base s τ (s.disclose t) τ
  | depart {c : Nat} (event : Value) (values : Table Value) : s.current = .awaits c → s.within = none →
      Step base s τ (s.depart c event values) τ
  | conclude {c : Nat} {x : Strand} : s.Open c x → s.machine.cell = x.cell → s.within = none → s.Quiet →
      Step base s τ (s.conclude x) τ

/-- What can come about on a machine that has begun no runs and has no settle callbacks. -/
inductive Kept (base : Nat → List Nat) : Strands → History → Prop
  | begin {m : Machine} : m.store.runner.runs = #[] → m.store.runner.tickets = #[] → m.store.runner.stack = [] →
      m.cell < m.cells.size → (∀ h, m.loop.Holds h → h.callback.awaits? = none) →
        Kept base ⟨m, fun _ => .free, fun _ => none, fun _ => none, [], none, none⟩ []
  | step {s s' : Strands} {τ τ' : History} : Kept base s τ → Step base s τ s' τ' → Kept base s' τ'

end Strands
end Treeworks
