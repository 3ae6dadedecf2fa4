import Treeworks.Proofs.Log.Reconfiguration

/-! Which entries pass a filter that lists families. An entry that names its processor passes if that is listed. The
first entry of a timed step, and the one of its error, are written inside of its context, the last one outside; entries
of runs name no processor. -/
namespace Treeworks

/-- Whether a filter that lists some names lets an entry of a family pass: the family is listed, or the method's level
reaches the threshold. -/
def Admits (names : List String) (threshold : Nat) (family : Value) (method : LogMethod) : Prop :=
  (∃ n ∈ names, family = .str n) ∨ threshold ≤ methodLevel method.name

instance (names : List String) (threshold : Nat) (family : Value) (method : LogMethod) :
    Decidable (Admits names threshold family method) :=
  inferInstanceAs (Decidable (_ ∨ _))

/-- The family of an entry: the one that it names itself, unless that is empty, or else the one of the context. -/
def Machine.familyFor (m : Machine) (own : Value) : Value :=
  if m.store.truthy own then own else m.scope.fields.processor

/-- A chain with a filter that lists some names. -/
structure Chain.Lists (c : Chain) (names : List String) (threshold : Nat) : Prop where
  filter : ∃ e : Elements, c.filter = some ⟨e, threshold⟩ ∧ e.Lists names

namespace Table
variable {α : Type} {F : Frame}

theorem get?_merge_of_ne (t : Table α) {u : Table α} {key : String} (h : ∀ e ∈ u, e.1 ≠ key) :
    (t.merge u).get? key = t.get? key := by
  unfold merge
  induction u generalizing t with
  | nil => rfl
  | cons e u ih =>
    rw [List.foldl_cons, ih _ fun e' he' => h e' (.tail _ he'), get?_set, if_neg (h e (.head _))]

end Table

namespace LogContext

theorem setField_processor_of_ne (c : LogContext) {name : String} (h : name ≠ "processor") (v : Value) :
    (c.setField name v).processor = c.processor := by
  unfold setField
  split
  · contradiction
  · split
    · rfl
    split
    · rfl
    split
    · rfl
    split <;> rfl

theorem merge_processor_of_ne (c : LogContext) {values : Table Value} (h : ∀ e ∈ values, e.1 ≠ "processor") :
    (c.merge values).processor = c.processor := by
  unfold merge
  induction values generalizing c with
  | nil => rfl
  | cons e values ih =>
    rw [List.foldl_cons, ih _ fun e' he' => h e' (.tail _ he')]
    split
    · rfl
    · exact c.setField_processor_of_ne (h e (.head _)) _

/-- A context that a processor's name is put into has that name. -/
theorem merge_processor (c : LogContext) {before after : Table Value} {name : String}
    (hafter : ∀ e ∈ after, e.1 ≠ "processor") :
    (c.merge (before ++ ("processor", .str name) :: after)).processor = .str name := by
  have hsplit : c.merge (before ++ ("processor", .str name) :: after) =
      ((c.merge before).setField "processor" (.str name)).merge after := by
    simp [merge, List.foldl_append]
  rw [hsplit, merge_processor_of_ne _ hafter]
  rfl

end LogContext

/-- An entry as it is asked for: what a logger is called with. -/
structure Entry where
  method : LogMethod
  event : String
  fields : Table Value

/-- The entry of what a runner has to say. -/
def Note.entry (s : Store) : Note → Entry
  | .stepFailed step error => ⟨.debug, "ware.step.error", [("step", step), ("error_type", .str (s.typeName error))]⟩
  | .duplicate step => ⟨.warning, "ware.next.duplicate", [("step", step)]⟩

namespace Work
variable {α : Type} {m m' : Machine} {σ : Service} {names : List String} {threshold : Nat} {c : Chain}
  {fields : Table Value}

theorem bind_congr_left {w w' : Work α} {β : Type} (h : w σ m = w' σ m') (f : α → Work β) :
    (w >>= f) σ m = (w' >>= f) σ m' := by
  rw [bind_eq, bind_eq, h]

theorem attempt_congr {w w' : Work α} (h : w σ m = w' σ m') : attempt w σ m = attempt w' σ m' := by
  unfold attempt
  rw [h]

/-- Writes an entry to the stream after it has passed: what `stream` does then. -/
def emit (chain : Chain) (logger : String) (method : LogMethod) (event : Value) (fields : Table Value) : Work Unit := do
  let lines ← linesOf chain.format (if logger = "" then "root" else logger) method event fields
  let m ← machine
  if m.logging.configured && m.logging.streamTakes (if logger = "" then "root" else logger) method then
    modify fun m => { m with lines := lines.reverse ++ m.lines }

/-- What is left of an entry once it is known whether it passes: it is written then, and else nothing happens. -/
def decided (admitted : Bool) (chain : Chain) (logger : String) (method : LogMethod) (event : Value)
    (fields : Table Value) : Work Unit := do
  checkFields method.name fields
  if admitted then emit chain logger method event fields

theorem gives_passes (hc : c.Lists names threshold) (logger : String) (method : LogMethod) {own : Value}
    (hown : own.isScalar = true) (hfamily : (m.familyFor own).isScalar = true) :
    (passes c logger method own).Gives m (decide (Admits names threshold (m.familyFor own) method)) m := by
  obtain ⟨e, hfilter, he⟩ := hc.filter
  intro σ
  unfold passes
  rw [machine_bind, hfilter]
  refine ((gives_trueOr_of_isScalar hown _ m).bind ((gives_contains he hfamily m).bind fun σ => ?_)) σ
  by_cases hlisted : ∃ n ∈ names, m.familyFor own = .str n
  · simp only [if_true, Admits, hlisted, true_or, decide_true]
    rfl
  · simp only [Admits, hlisted, false_or]
    rfl

/-- The filter decides on an entry as it is written, by the family that it names or by the context then. -/
theorem write_eq (hc : c.Lists names threshold) (logger : String) (method : LogMethod) (event : Value)
    {own family : Value} (hfields : (fields.get? "processor").getD .null = own)
    (hown : own.isScalar = true) (hfor : m.familyFor own = family) (hfamily : family.isScalar = true) :
    write (some c) logger method event fields σ m =
      decided (Admits names threshold family method) c logger method event fields σ m := by
  subst hfields hfor
  unfold write decided checkFields
  split
  · rfl
  · change stream c logger method event fields σ m = _
    unfold stream
    rw [(gives_passes hc logger method hown hfamily).bind_eq]
    rfl

/-- An entry that passes is written if its fields have no names of other things. -/
theorem decided_true (hnames : ["event", "self", "method_name"].find? fields.has = none) (logger : String)
    (method : LogMethod) (event : Value) :
    decided true c logger method event fields = emit c logger method event fields := by
  unfold decided checkFields
  rw [hnames]
  rfl

/-- A logger writes through the chain that it uses. -/
theorem log_eq {logger : String} (hchain : (m.logging.chainOf logger).1 = some c) (method : LogMethod) (event : String)
    (fields : Table Value) : log logger method event fields σ m =
      write (some c) logger method (.str event) fields σ { m with logging := (m.logging.chainOf logger).2 } := by
  unfold log
  rw [machine_bind]
  rcases h : m.logging.chainOf logger with ⟨chain, logging⟩
  rw [h] at hchain
  subst hchain
  rfl

/-! ### Entries that name their processor -/

/-- What a processor logs of itself passes if its name is listed. -/
theorem logTransformers_eq (hσ : ∀ r (m : Machine), m.logging.Used (σ r m).2.logging) (hc : c.Lists names threshold)
    {p : Value} {name : String} {count : Value} {m₁ m₂ : Machine} (event : String)
    (hname : attr p "name" σ m = (.done (.str name), m₁)) (hcount : transformers p σ m₁ = (.done count, m₂))
    (hchain : (m.logging.chainOf "unified.processor").1 = some c) (hlisted : name ∈ names) (hfilled : name ≠ "") :
    logTransformers p event σ m =
      emit c "unified.processor" .debug (.str event) [("processor", .str name), ("transformers", count)] σ
        { m₂ with logging := (m₂.logging.chainOf "unified.processor").2 } := by
  have hused : m.logging.Used m₂.logging := by
    have h₁ := (heeds_attr p "name").used hσ m
    have h₂ := (heeds_transformers p).used hσ m₁
    rw [hname] at h₁
    rw [hcount] at h₂
    exact h₁.trans h₂
  let m₃ : Machine := { m₂ with logging := (m₂.logging.chainOf "unified.processor").2 }
  have hfor : m₃.familyFor (.str name) = .str name := by
    simp [Machine.familyFor, Store.truthy, Store.length?, Store.elements?, Text.symbols_eq_nil, hfilled]
  have hadmits : Admits names threshold (.str name) .debug := .inl ⟨name, hlisted, rfl⟩
  unfold logTransformers
  rw [bind_eq, hname]
  dsimp only
  rw [bind_eq, hcount]
  dsimp only
  rw [log_eq ((hused.chainOf_fst _).trans hchain), write_eq hc _ _ _ rfl rfl hfor rfl, decide_eq_true hadmits,
    decided_true rfl]

/-! ### Entries of runs -/

/-- What is logged of a run names no processor: it passes if the family of the context is listed, or by its level. -/
theorem logNote_eq (hc : c.Lists names threshold) (note : Note)
    (hchain : (m.logging.chainOf "unified.framework.ware").1 = some c)
    (hcontext : m.scope.fields.processor.isScalar = true) :
    logNote note σ m =
      decided (Admits names threshold m.scope.fields.processor (note.entry m.store).method) c "unified.framework.ware"
        (note.entry m.store).method (.str (note.entry m.store).event) (note.entry m.store).fields σ
        { m with logging := (m.logging.chainOf "unified.framework.ware").2 } := by
  let m₁ : Machine := { m with logging := (m.logging.chainOf "unified.framework.ware").2 }
  have hfor : m₁.familyFor .null = m.scope.fields.processor := rfl
  have hnote : logNote note σ m = log "unified.framework.ware" (note.entry m.store).method (note.entry m.store).event
      (note.entry m.store).fields σ m := by
    cases note <;> rfl
  have hfields : ((note.entry m.store).fields.get? "processor").getD .null = .null := by
    cases note <;> rfl
  rw [hnote, log_eq hchain, write_eq hc _ _ _ hfields rfl hfor hcontext]

/-! ### Entries of timed steps -/

/-- The fields of the first entry of a step: its span's id, the id of the span that this is below if there is one, and
the metrics. -/
def startFields (span : Span) (nested : Bool) (metrics : Table Value) : Table Value :=
  let start := Table.merge [("span_id", span.id)] metrics
  if nested then start.set "parent_span_id" span.parent else start

theorem gives_stepEvent (event ending : String) (m : Machine) :
    (stepEvent (.str event) ending).Gives m (.str (event ++ ending)) m := (gives_formatted_str _ event m).bind fun _ => rfl

theorem startFields_processor (span : Span) (nested : Bool) {metrics : Table Value}
    (h : ∀ e ∈ metrics, e.1 ≠ "processor") : (startFields span nested metrics).get? "processor" = none := by
  unfold startFields
  cases nested
  · exact Table.get?_merge_of_ne _ h
  · exact (Table.get?_set _ _ _ _).trans (Table.get?_merge_of_ne _ h)

/-- What a step does when it is opened: it writes its first entry. -/
theorem firstEntry_eq (hc : c.Lists names threshold) {step : OpenStep} (hstep : step.chain = some c) {span : Span}
    (hparent : span.parent.isScalar = true) {metrics : Table Value} (hmetrics : ∀ e ∈ metrics, e.1 ≠ "processor")
    (hcontext : m.scope.fields.processor.isScalar = true) (event : String) (w : Work OpenStep) :
    (do
      if ← truth (.bool true) then
        let start := Table.merge [("span_id", span.id)] metrics
        let start := if ← truth span.parent then start.set "parent_span_id" span.parent else start
        write step.chain "unified.timing" .debug (← stepEvent (.str event) ".start") start
        return step
      else w) σ m =
    (do
      decided (Admits names threshold m.scope.fields.processor .debug) c "unified.timing" .debug
        (.str (event ++ ".start")) (startFields span (m.store.truthy span.parent) metrics)
      return step) σ m := by
  have hown : ((startFields span (m.store.truthy span.parent) metrics).get? "processor").getD .null = .null := by
    rw [startFields_processor span _ hmetrics]
    rfl
  have htext := gives_stepEvent event ".start" m
  refine ((gives_truth_of_isScalar rfl m).bind_eq _ σ).trans ?_
  refine ((gives_truth_of_isScalar hparent m).bind_eq _ σ).trans ((htext.bind_eq _ σ).trans ?_)
  rw [hstep]
  exact bind_congr_left (write_eq hc _ _ _ hown rfl rfl hcontext) _

/-- A step that is opened for a processor has that in its context, in which its first entry is written. The context of
before is the one that its token brings back. -/
theorem openStep_eq (hσ : ∀ r (m : Machine), m.logging.Used (σ r m).2.logging) (hc : c.Lists names threshold)
    (hchain : m.logging.chain = some c) (hcell : m.cell < m.cells.size) (hplain : m.scope.fields.Plain)
    (event name : String) (level : Value) {rest : Table Value} (hrest : ∀ e ∈ rest, e.1 ≠ "processor") :
    ∃ m₁ step fields, m₁.scope.fields.processor = .str name ∧ step.chain = some c ∧
      m₁.store.tokens.getD step.token default = ⟨m.cell, m.scope, false⟩ ∧
      openStep (.str event) (.bool true) level (("processor", .str name) :: rest) σ m = (do
        let started ← attempt do
          decided (Admits names threshold (.str name) .debug) c "unified.timing" .debug (.str (event ++ ".start")) fields
          return step
        match started with
        | .ok step => return step
        | .error e =>
          handling e (restoreScope step.token)
          reraise e : Work OpenStep) σ m₁ := by
  obtain ⟨m', hspan, haside, hid, hparent⟩ :=
    newSpan_eq (.str event) ((("processor", Value.str name) :: rest).filter fun e => !isScopeName e.1) σ m
  have hused := (heeds_newSpan (.str event) ((("processor", Value.str name) :: rest).filter fun e => !isScopeName e.1)).used hσ m
  rw [hspan] at hused
  have hscope : m'.scope = m.scope := by
    unfold Machine.scope
    rw [haside.cells, haside.cell]
  -- The span has been made and its fields are pushed, before the first entry is written.
  let span := m'.store.spans.getD m.store.spans.size default
  let pushed := m'.scope.fields.merge ([("span_id", span.id), ("parent_span_id", span.parent)] ++
    (("processor", Value.str name) :: rest).filter fun e => isScopeName e.1)
  let m₁ : Machine := { m' with
    store := { m'.store with tokens := m'.store.tokens.push ⟨m'.cell, m'.scope, false⟩ }
    stamps := m'.stamps + 1
    cells := m'.cells.set! m'.cell ⟨m'.stamps + 1, pushed⟩ }
  let step : OpenStep := ⟨.str event, level, m.store.spans.size, m'.store.tokens.size, m'.logging.chain⟩
  have hprocessor : m₁.scope.fields.processor = .str name := by
    have hsize : m'.cell < m'.cells.size := by rwa [haside.cell, haside.cells]
    have hpushed : m₁.scope.fields = pushed := by
      simp [m₁, Machine.scope, hsize]
    rw [hpushed]
    have hfirst : (("processor", Value.str name) :: rest).filter (fun e => isScopeName e.1) =
        ("processor", .str name) :: rest.filter fun e => isScopeName e.1 := by
      simp [isScopeName]
    simp only [pushed, hfirst]
    exact LogContext.merge_processor _ fun e he => hrest e (List.mem_filter.mp he).1
  have hstep : step.chain = some c := hused.chain.trans hchain
  have hparentScalar : span.parent.isScalar = true := by
    rw [show span.parent = _ from hparent]
    exact hplain _ (by simp)
  refine ⟨m₁, step, startFields span (m₁.store.truthy span.parent)
    ((("processor", Value.str name) :: rest).filter fun e => !isScopeName e.1), hprocessor, hstep, ?_, ?_⟩
  · rw [← hscope, ← haside.cell]
    simp [m₁, step]
  · have hmetrics : ∀ e ∈ (("processor", Value.str name) :: rest).filter fun e => !isScopeName e.1, e.1 ≠ "processor" := by
      intro e he hname
      simp [isScopeName, hname] at he
    have hbody := firstEntry_eq (σ := σ) (m := m₁) hc hstep hparentScalar hmetrics (by rw [hprocessor]; rfl) event
      (pure { step with chain := none })
    rw [hprocessor] at hbody
    unfold openStep
    rw [bind_eq, hspan]
    exact bind_congr_left (attempt_congr hbody) _

/-- The last entry of a step is written as its fields have been read, by the method that its level names. -/
theorem writeLast_write {chain : Option Chain} {step : OpenStep} (hchain : step.chain.or m.logging.chain = chain)
    {event level : String} {method : LogMethod} (hevent : step.event = .str event)
    (hlevel : LoggerPart.ofName? chain.isSome level = some (.method method)) (ending : String)
    (hread : (do fieldsOf (← spanFields ((← store).span step.span)) : Work (Table Value)) σ m = (.done fields, m')) :
    writeLast step (.str level) ending σ m =
      write chain "unified.timing" method (.str (event ++ ending)) fields σ m' := by
  have hpart : (loggerPart chain (.str level)).Gives m (.method method) m := by
    intro σ
    unfold loggerPart
    dsimp only
    rw [hlevel]
    rfl
  have htext : (stepEvent step.event ending).Gives m (.str (event ++ ending)) m := by
    rw [hevent]
    exact gives_stepEvent event ending m
  have hfields : writeLast step (.str level) ending σ m =
      ((do fieldsOf (← spanFields ((← store).span step.span)) : Work (Table Value)) >>= fun fields =>
        write chain "unified.timing" method (.str (event ++ ending)) fields) σ m := by
    unfold writeLast
    rw [(gives_stepChain step m).bind_eq, hchain, hpart.bind_eq, htext.bind_eq]
    simp only [bind_assoc]
    rfl
  rw [hfields, bind_eq, hread]

/-- The last entry of a step is decided on as its fields have been read. -/
theorem writeLast_eq (hc : c.Lists names threshold) {step : OpenStep} (hchain : step.chain.or m.logging.chain = some c)
    {event level : String} {method : LogMethod} (hevent : step.event = .str event)
    (hlevel : LoggerPart.ofName? true level = some (.method method)) (ending : String) {own : Value}
    (hread : (do fieldsOf (← spanFields ((← store).span step.span)) : Work (Table Value)) σ m = (.done fields, m'))
    (hfields : (fields.get? "processor").getD .null = own) (hown : own.isScalar = true)
    (hfamily : (m'.familyFor own).isScalar = true) :
    writeLast step (.str level) ending σ m =
      decided (Admits names threshold (m'.familyFor own) method) c "unified.timing" method (.str (event ++ ending)) fields
        σ m' :=
  (writeLast_write hchain hevent hlevel ending hread).trans (write_eq hc _ _ _ hfields hown rfl hfamily)

/-- The right to bring back a context, if it is used in the cell where that was replaced. -/
theorem scope_of_restoreScope {token : Nat} {u : Unit} (hcell : m.cell < m.cells.size)
    (h : restoreScope token σ m = (.done u, m')) : m'.scope = (m.store.tokens.getD token default).previous := by
  unfold restoreScope at h
  rw [machine_bind] at h
  dsimp only at h
  split at h
  · exact absurd h (not_fail_done _)
  · split at h
    · exact absurd h (not_fail_done _)
    · cases h
      simp [Machine.scope, hcell]

/-- The last entry of a step that ends without an error is written in the context that its token brings back. -/
theorem closeStep_ok_eq (hcell : m.cell < m.cells.size) {step : OpenStep} {m₁ : Machine} {u : Unit}
    (h : (do stopSpan step.span; restoreScope step.token : Work Unit) σ m = (.done u, m₁)) (a : α) :
    m₁.scope = (m.store.tokens.getD step.token default).previous ∧
      closeStep step (.ok a) σ m = (do writeLast step step.level ".end"; return a : Work α) σ m₁ := by
  obtain ⟨u₁, m₂, hstop, hrestore⟩ := of_bind_done h
  cases hstop
  refine ⟨(scope_of_restoreScope ?_ hrestore).trans rfl, ?_⟩
  · exact hcell
  have hclose : closeStep step (.ok a) σ m =
      ((do stopSpan step.span; restoreScope step.token : Work Unit) >>= fun _ => do
        writeLast step step.level ".end"
        return a : Work α) σ m := by
    rw [bind_assoc]
    rfl
  rw [hclose, bind_eq, h]

/-- The entry of an error is written in the context in which the step is closed, before the other is brought back. -/
theorem closeStep_error_eq {step : OpenStep} {e : Value} (hordinary : (isOrdinary e).Gives m true m) :
    ∃ m₁, m₁.scope = m.scope ∧ m₁.logging = m.logging ∧
      (closeStep step (.error e) : Work α) σ m = (do
        let last ← attempt (handling e (writeLast step (.str "error") ".error"))
        handling e (restoreScope step.token)
        let _ ← release last
        reraise e : Work α) σ m₁ := by
  refine ⟨_, ?_, ?_, (hordinary.bind_eq _ σ).trans rfl⟩ <;> rfl

/-- An entry that has passed is written, if the stream is configured for families. -/
theorem emit_of_lines {e : Elements} {logger : String} {method : LogMethod} {event : Value} {lines : List Datum}
    (h : linesOf c.format (if logger = "" then "root" else logger) method event fields σ m = (.done lines, m'))
    (hfollows : m'.logging.Follows threshold c.format (some e)) :
    emit c logger method event fields σ m = (.done (), { m' with lines := lines.reverse ++ m'.lines }) := by
  have htakes (logger : String) : m'.logging.streamTakes logger method = true := by
    have hlevel : 10 ≤ method.level := by
      cases method <;> decide
    simp [Logging.streamTakes, Logging.streamLevel, hfollows.rootLevel, hfollows.ownLevel, hlevel]
  unfold emit
  rw [bind_eq, h]
  dsimp only
  rw [machine_bind, hfollows.configured, htakes]
  rfl

/-! ### Processors that are listed -/

/-- Under a filter that lists some families, whoever answers what is asked for meanwhile: what a processor logs of its
calls itself passes if its name is listed; so does the first entry of a step that is opened for it, as it is written in
the step's context. What is logged of a run passes just if the family of the context is listed or by its level, and so
does the last entry of a step: it is written in the context of before, which the token brings back, but that of an
error in the context in which the step is closed. An entry that passes is written. -/
theorem listed_families_pass (depth : Nat) {c : Chain} {names : List String} {threshold : Nat}
    (hc : c.Lists names threshold) :
    (∀ (m m₁ m₂ : Machine) (p count : Value) (name event : String),
      attr p "name" (service depth) m = (.done (.str name), m₁) →
      transformers p (service depth) m₁ = (.done count, m₂) →
      (m.logging.chainOf "unified.processor").1 = some c → name ∈ names → name ≠ "" →
      logTransformers p event (service depth) m =
        emit c "unified.processor" .debug (.str event) [("processor", .str name), ("transformers", count)]
          (service depth) { m₂ with logging := (m₂.logging.chainOf "unified.processor").2 }) ∧
    (∀ (m : Machine) (note : Note), (m.logging.chainOf "unified.framework.ware").1 = some c →
      m.scope.fields.processor.isScalar = true →
      logNote note (service depth) m =
        decided (Admits names threshold m.scope.fields.processor (note.entry m.store).method) c "unified.framework.ware"
          (note.entry m.store).method (.str (note.entry m.store).event) (note.entry m.store).fields (service depth)
          { m with logging := (m.logging.chainOf "unified.framework.ware").2 }) ∧
    (∀ (m : Machine) (event name : String) (level : Value) (rest : Table Value), m.logging.chain = some c →
      m.cell < m.cells.size → m.scope.fields.Plain → (∀ e ∈ rest, e.1 ≠ "processor") →
      ∃ m₁ step fields, m₁.scope.fields.processor = .str name ∧ step.chain = some c ∧
        m₁.store.tokens.getD step.token default = ⟨m.cell, m.scope, false⟩ ∧
        openStep (.str event) (.bool true) level (("processor", .str name) :: rest) (service depth) m = (do
          let started ← attempt do
            decided (Admits names threshold (.str name) .debug) c "unified.timing" .debug (.str (event ++ ".start"))
              fields
            return step
          match started with
          | .ok step => return step
          | .error e =>
            handling e (restoreScope step.token)
            reraise e : Work OpenStep) (service depth) m₁) ∧
    (∀ (m m' : Machine) (step : OpenStep) (event level ending : String) (method : LogMethod) (fields : Table Value)
      (own : Value), step.chain.or m.logging.chain = some c → step.event = .str event →
      LoggerPart.ofName? true level = some (.method method) →
      (do fieldsOf (← spanFields ((← store).span step.span)) : Work (Table Value)) (service depth) m =
        (.done fields, m') →
      (fields.get? "processor").getD .null = own → own.isScalar = true → (m'.familyFor own).isScalar = true →
      writeLast step (.str level) ending (service depth) m =
        decided (Admits names threshold (m'.familyFor own) method) c "unified.timing" method (.str (event ++ ending))
          fields (service depth) m') ∧
    (∀ (m m₁ : Machine) (step : OpenStep) (u : Unit) (tree : Value), m.cell < m.cells.size →
      (do stopSpan step.span; restoreScope step.token : Work Unit) (service depth) m = (.done u, m₁) →
      m₁.scope = (m.store.tokens.getD step.token default).previous ∧
      closeStep step (.ok tree) (service depth) m =
        (do writeLast step step.level ".end"; return tree : Work Value) (service depth) m₁) ∧
    (∀ (m : Machine) (step : OpenStep) (e : Value), (isOrdinary e).Gives m true m →
      ∃ m₁, m₁.scope = m.scope ∧ m₁.logging = m.logging ∧
        (closeStep step (.error e) : Work Value) (service depth) m = (do
          let last ← attempt (handling e (writeLast step (.str "error") ".error"))
          handling e (restoreScope step.token)
          let _ ← release last
          reraise e : Work Value) (service depth) m₁) ∧
    ∀ (m m' : Machine) (e : Elements) (logger : String) (method : LogMethod) (event : Value) (fields : Table Value)
      (lines : List Datum), linesOf c.format (if logger = "" then "root" else logger) method event fields
        (service depth) m = (.done lines, m') → m'.logging.Follows threshold c.format (some e) →
      emit c logger method event fields (service depth) m =
        (.done (), { m' with lines := lines.reverse ++ m'.lines }) := by
  refine ⟨?_, ?_, ?_, ?_, ?_, ?_, ?_⟩
  · intro m m₁ m₂ p count name event hname hcount hchain hlisted hfilled
    exact logTransformers_eq (heeds_service depth) hc event hname hcount hchain hlisted hfilled
  · intro m note hchain hcontext
    exact logNote_eq hc note hchain hcontext
  · intro m event name level rest hchain hcell hplain hrest
    exact openStep_eq (heeds_service depth) hc hchain hcell hplain event name level hrest
  · intro m m' step event level ending method fields own hchain hevent hlevel hread hfields hown hfamily
    exact writeLast_eq hc hchain hevent hlevel ending hread hfields hown hfamily
  · intro m m₁ step u tree hcell hclosed
    exact closeStep_ok_eq hcell hclosed tree
  · intro m step e hordinary
    exact closeStep_error_eq hordinary
  · intro m m' e logger method event fields lines hlines hfollows
    exact emit_of_lines hlines hfollows

/-- A chain that lists one family, and lets errors alone pass of the others. -/
def listing : Chain := ⟨some ⟨⟨.empty 8, [.str "n"]⟩, 40⟩, .data⟩

theorem lists_listing : listing.Lists ["n"] 40 where
  filter := ⟨_, rfl, rfl, by simp⟩

/-- A machine under that chain, with something that has the attributes of a listed processor, with a span, and with the
right to bring back an empty context. -/
def listingMachine : Machine :=
  { (default : Machine) with
    store := { (default : Store) with
      dicts := #[[(.str "name", .str "n"), (.str "ware", .list 0)]], records := #[0], lists := #[#[]]
      spans := #[⟨.str "processor.parse", .str "s1", .null, .int 0, .int 0, .dict 1, .null, []⟩]
      tokens := #[⟨0, ⟨0, .empty⟩, false⟩] }
    cells := #[⟨0, .empty⟩]
    logging := ⟨true, some listing, 10, 10, []⟩ }

/-- A step of the listed processor, whose last entry is informational. -/
def listingStep : OpenStep := ⟨.str "processor.parse", .str "info", 0, 0, some listing⟩

/-- Outside of any context the listed processor's own entry is written, as is the first one of its step, while a run's
entry and the last one of a step that reports at the level of information are lost. -/
theorem listed_families_pass_listing :
    (∃ (lines : List Datum) (m' : Machine), logTransformers (.record 0) "processor.use" (service 1) listingMachine =
      (.done (), { m' with lines := lines ++ m'.lines })) ∧
    logNote (.duplicate .null) (service 1) listingMachine =
      (.done (), { listingMachine with logging := (listingMachine.logging.chainOf "unified.framework.ware").2 }) ∧
    (∃ (m₁ : Machine) (step : OpenStep), m₁.scope.fields.processor = .str "n" ∧ step.chain = some listing ∧
      m₁.store.tokens.getD step.token default = ⟨0, ⟨0, .empty⟩, false⟩) ∧
    (∃ (fields : Table Value) (m' : Machine), writeLast listingStep (.str "info") ".end" (service 1) listingMachine =
      decided false listing "unified.timing" .info (.str "processor.parse.end") fields (service 1) m') ∧
    (∃ m₁ : Machine, m₁.scope = ⟨0, .empty⟩ ∧ (closeStep listingStep (.ok .null) : Work Value) (service 1)
      listingMachine = (do writeLast listingStep (.str "info") ".end"; return .null : Work Value) (service 1) m₁) ∧
    ∃ m₁ : Machine, m₁.scope = listingMachine.scope ∧
      (closeStep listingStep (.error .null) : Work Value) (service 1) listingMachine = (do
        let last ← attempt (handling .null (writeLast listingStep (.str "error") ".error"))
        handling .null (restoreScope 0)
        let _ ← release last
        reraise .null : Work Value) (service 1) m₁ := by
  obtain ⟨hown, hnote, hopen, hlast, hok, herror, hemit⟩ := listed_families_pass 1 lists_listing
  have hplain : listingMachine.scope.fields.Plain := by
    intro v hv
    simp only [List.mem_cons, List.not_mem_nil, or_false] at hv
    rcases hv with rfl | rfl | rfl | rfl | rfl <;> rfl
  refine ⟨?_, ?_, ?_, ?_, ?_, ?_⟩
  · have hwritten := hown listingMachine _ _ (.record 0) (.int 0) "n" "processor.use" rfl rfl rfl (by simp) (by decide)
    exact ⟨_, _, hwritten.trans (hemit _ _ _ _ _ _ _ _ rfl ⟨rfl, rfl, rfl, rfl⟩)⟩
  · exact (hnote listingMachine (.duplicate .null) rfl rfl).trans rfl
  · obtain ⟨m₁, step, fields, hprocessor, hchain, htoken, -⟩ :=
      hopen listingMachine "processor.parse" "n" (.str "info") [] rfl (by decide) hplain (by simp)
    exact ⟨m₁, step, hprocessor, hchain, htoken⟩
  · exact ⟨_, _, hlast listingMachine _ listingStep "processor.parse" "info" ".end" .info _ .null rfl rfl rfl rfl rfl rfl
      rfl⟩
  · obtain ⟨hscope, hclosed⟩ := hok listingMachine _ listingStep () .null (by decide) rfl
    exact ⟨_, hscope, hclosed⟩
  · obtain ⟨m₁, hscope, -, hclosed⟩ := herror listingMachine listingStep .null fun _ => rfl
    exact ⟨m₁, hscope, hclosed⟩

/-- A parser or compiler that does nothing of its own. -/
def idleWorker (id : String) : WorkerSpec := ⟨id, id, .slot, [], false, [], none⟩

/-- A script that has a listed processor compile a tree, with a threshold. -/
def compileListed (level : String) : List Op :=
  [.parser (idleWorker "P"), .compiler (idleWorker "K"), .family "F" (.str "n") (.ref "P") (.ref "K") .null,
    .new (some "p") "F" [], .configure (some (.str level)) (some (.str "json")) (some (.list [.str "n"])) false,
    .stringify "p" [.dict [("type", .str "root"), ("children", .list [])]]]

/-- The event of a line. -/
def eventOf? : Datum → Option String
  | .obj entry =>
    match Table.get? entry "event" with
    | some (.str event) => some event
    | _ => none
  | _ => none

/-- The events of the lines that an operation shows. -/
def eventsOf (fields : List (String × Datum)) : List String :=
  match Table.get? fields "lines" with
  | some (.arr lines) => lines.filterMap eventOf?
  | _ => []

/-- The events of the lines that the operations of a script show. -/
def shownEvents : Outcome (List (List (String × Datum))) → List String
  | .done results => results.flatMap eventsOf
  | _ => []

/-- The last entry of a listed processor's step is lost where errors alone are asked for of the others: it is written
outside of the step's context. -/
theorem listed_family_loses_end :
    (shownEvents (performScript false false (compileListed "DEBUG") (service 3) (Machine.initial false)).1,
      shownEvents (performScript false false (compileListed "ERROR") (service 3) (Machine.initial false)).1) =
    (["processor.stringify.start", "processor.stringify.end"], ["processor.stringify.start"]) := by
  decide +kernel

end Work
end Treeworks
