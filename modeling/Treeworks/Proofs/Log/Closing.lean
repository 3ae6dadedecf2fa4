import Treeworks.Proofs.Log.Records

/-! The entries that a timed step writes where entries are recorded as they are: one as it is opened, in its own context,
and one as it is closed. Both have the fields of its span. -/
namespace Treeworks

/-- The names of what stands in the entries of a step, but is not among the fields of its span. -/
def takenNames : List String := ["event", "self", "method_name", "processor", "stage", "file_path"]

/-- The names of metrics that would stand in the place of something else in the entries of a step. -/
def reservedNames : List String := takenNames ++ ["span_id", "parent_span_id"]

namespace Entries

theorem set_ofTable (t : Table Value) (name : String) (v : Value) :
    (ofTable t).set (.str name) v = ofTable (t.set name v) := by
  induction t with
  | nil => rfl
  | cons e t ih =>
    obtain ⟨k, w⟩ := e
    have hcons : ofTable ((k, w) :: t) = (.str k, w) :: ofTable t := rfl
    rw [hcons, set, Table.set, Value.sameKey_str, ih]
    by_cases hk : k = name <;> simp [hk, ofTable]

end Entries

/-- Entries under texts that are written into others are so as into a table. -/
theorem Store.foldl_setIn_ofTable (s : Store) (t u : Table Value) :
    (Entries.ofTable u).foldl (fun u e => s.setIn u e.1 e.2) (Entries.ofTable t) = Entries.ofTable (t.merge u) := by
  unfold Table.merge
  induction u generalizing t with
  | nil => rfl
  | cons e u ih =>
    obtain ⟨k, v⟩ := e
    have hcons : Entries.ofTable ((k, v) :: u) = (.str k, v) :: Entries.ofTable u := rfl
    rw [hcons, List.foldl_cons, s.setIn_str, Entries.set_ofTable, ih, List.foldl_cons]

theorem Table.get?_append_of_ne {α : Type} (t : Table α) {u : Table α} {key : String} (h : ∀ e ∈ u, e.1 ≠ key) :
    Table.get? (t ++ u) key = t.get? key := by
  induction t with
  | nil =>
    induction u with
    | nil => rfl
    | cons e u ih => exact (if_neg (h e (.head _))).trans (ih fun e' he' => h e' (.tail _ he'))
  | cons e t ih =>
    rw [List.cons_append, get?, get?, ih]

theorem Table.forall_merge {α : Type} {P : α → Prop} {t u : Table α} (ht : ∀ e ∈ t, P e.2) (hu : ∀ e ∈ u, P e.2) :
    ∀ e ∈ t.merge u, P e.2 := by
  unfold merge
  induction u generalizing t with
  | nil => exact ht
  | cons e u ih =>
    rw [List.foldl_cons]
    exact ih (forall_set ht e.1 (hu e (.head _))) fun e' he' => hu e' (.tail _ he')

namespace Work
variable {σ : Service} {m₀ m : Machine}

/-- Metrics that can be shown, under names that are free. -/
def Measures (σ : Service) (m₀ : Machine) (metrics : Table Value) : Prop :=
  ∀ e ∈ metrics, e.1 ∉ reservedNames ∧ (see e.2).Calm σ m₀

theorem Measures.set {metrics : Table Value} (h : Measures σ m₀ metrics) {name : String} (hname : name ∉ reservedNames)
    {v : Value} (hv : (see v).Calm σ m₀) : Measures σ m₀ (metrics.set name v) := by
  induction metrics with
  | nil =>
    intro e he
    obtain rfl := List.mem_singleton.mp he
    exact ⟨hname, hv⟩
  | cons e metrics ih =>
    obtain ⟨k, w⟩ := e
    have hrest := ih fun e he => h e (.tail _ he)
    have hhead := h _ (.head _)
    intro e' he'
    unfold Table.set at he'
    split at he'
    · rcases List.mem_cons.mp he' with rfl | he'
      · exact ⟨hhead.1, hv⟩
      · exact h e' (.tail _ he')
    · rcases List.mem_cons.mp he' with rfl | he'
      · exact hhead
      · exact hrest e' he'

/-- The fields of an entry of a step: those of its span, and others that can be shown and stand in no other place. -/
structure StepFields (σ : Service) (m₀ : Machine) (id : Value) (parent : Option Value) (fields : Table Value) : Prop where
  span : fields.get? "span_id" = some id
  parent : fields.get? "parent_span_id" = parent
  others : ∀ name ∈ takenNames, fields.get? name = none
  shows : ∀ e ∈ fields, (see e.2).Calm σ m₀

namespace StepFields
variable {id : Value} {parent : Option Value} {fields metrics : Table Value}

theorem merge (h : StepFields σ m₀ id parent fields) (hmetrics : Measures σ m₀ metrics) :
    StepFields σ m₀ id parent (fields.merge metrics) := by
  have hkeeps {name : String} (hname : name ∈ reservedNames) : (fields.merge metrics).get? name = fields.get? name :=
    Table.get?_merge_of_ne _ fun e he heq => (hmetrics e he).1 (heq ▸ hname)
  refine ⟨?_, ?_, fun name hname => ?_, ?_⟩
  · rw [hkeeps (by decide), h.span]
  · rw [hkeeps (by decide), h.parent]
  · rw [hkeeps (List.mem_append_left _ hname), h.others name hname]
  · exact Table.forall_merge (P := fun v => (see v).Calm σ m₀) h.shows fun e he => (hmetrics e he).2

theorem append (h : StepFields σ m₀ id parent fields) (hmetrics : Measures σ m₀ metrics) :
    StepFields σ m₀ id parent (fields ++ metrics) := by
  have hkeeps {name : String} (hname : name ∈ reservedNames) : Table.get? (fields ++ metrics) name = fields.get? name :=
    Table.get?_append_of_ne fields fun e he heq => (hmetrics e he).1 (heq ▸ hname)
  refine ⟨?_, ?_, fun name hname => ?_, fun e he => ?_⟩
  · rw [hkeeps (by decide), h.span]
  · rw [hkeeps (by decide), h.parent]
  · rw [hkeeps (List.mem_append_left _ hname), h.others name hname]
  · exact (List.mem_append.mp he).elim (h.shows e) fun he => (hmetrics e he).2

theorem set_parent (h : StepFields σ m₀ id parent fields) {v : Value} (hv : v.isScalar = true) :
    StepFields σ m₀ id (some v) (fields.set "parent_span_id" v) := by
  refine ⟨?_, ?_, fun name hname => ?_, ?_⟩
  · rw [Table.get?_set, if_neg (by decide), h.span]
  · rw [Table.get?_set, if_pos rfl]
  · have hne : "parent_span_id" ≠ name := by
      rintro rfl
      exact absurd hname (by decide)
    rw [Table.get?_set, if_neg hne, h.others name hname]
  · exact Table.forall_set (P := fun v => (see v).Calm σ m₀) h.shows _ (calm_see_of_isScalar hv)

end StepFields

/-- The fields of a span that has the id of another one above it, unless that is null. -/
theorem stepFields_start {id parent : Value} (hid : id.isScalar = true) (hparent : parent.isScalar = true) {s : Store}
    (htrue : parent = .null ∨ s.truthy parent = true) {metrics : Table Value} (hmetrics : Measures σ m₀ metrics) :
    StepFields σ m₀ id parent.present
      (if s.truthy parent then (Table.merge [("span_id", id)] metrics).set "parent_span_id" parent
      else Table.merge [("span_id", id)] metrics) := by
  have hbase : StepFields σ m₀ id none [("span_id", id)] := by
    refine ⟨rfl, rfl, fun name hname => ?_, fun e he => ?_⟩
    · have hne : "span_id" ≠ name := by
        rintro rfl
        exact absurd hname (by decide)
      exact if_neg hne
    · obtain rfl := List.mem_singleton.mp he
      exact calm_see_of_isScalar hid
  have hmerged := hbase.merge hmetrics
  rcases htrue with rfl | htrue
  · exact hmerged
  · have hnull : parent ≠ .null := by
      rintro rfl
      cases htrue
    rw [if_pos htrue, Value.present, if_neg hnull]
    exact hmerged.set_parent hparent

/-- What is reported of a span first: its duration, its id and the one above it. -/
theorem stepFields_report {id : Value} (hid : id.isScalar = true) {parent : Option Value}
    (hparent : ∀ v ∈ parent, v.isScalar = true) (z : Float) :
    StepFields σ m₀ id parent
      ([("duration_ms", .float z), ("span_id", id)] ++ parent.toList.map fun v => ("parent_span_id", v)) := by
  refine ⟨rfl, ?_, fun name hname => ?_, fun e he => calm_see_of_isScalar ?_⟩
  · cases parent <;> rfl
  · simp only [takenNames, List.mem_cons, List.not_mem_nil, or_false] at hname
    rcases hname with rfl | rfl | rfl | rfl | rfl | rfl <;> cases parent <;> rfl
  · simp only [List.mem_append, List.mem_cons, List.not_mem_nil, or_false, List.mem_map, Option.mem_toList] at he
    rcases he with (rfl | rfl) | ⟨v, hv, rfl⟩
    · rfl
    · exact hid
    · exact hparent v hv

/-- A span that has ended, with metrics that can be shown: what stands above it is null or counts as true, and the text of
the error that it may have can be had. -/
structure Reports (σ : Service) (m₀ m : Machine) (span : Span) : Prop where
  times : ∃ x y, span.startedAt = .float x ∧ span.endedAt = .float y
  id : span.id.isScalar = true
  parent : span.parent.isScalar = true
  above : span.parent = .null ∨ m.store.truthy span.parent = true
  metrics : ∃ i t, span.metrics = .dict i ∧ i < m.store.dicts.size ∧ m.store.dict i = .ofTable t ∧ Measures σ m₀ t
  error : span.error = .null ∨ (printed span.error).Calm σ m₀

theorem duration_eq {span : Span} {x y : Float} (hstart : span.startedAt = .float x) (hend : span.endedAt = .float y) :
    ∃ z, duration span σ m = (.done (.float z), m) := by
  unfold duration milliseconds
  rw [hstart, hend]
  exact ⟨_, rfl⟩

/-- Entries under texts are fields. -/
theorem fieldsOf_ofTable (t : Table Value) : fieldsOf (.ofTable t) = pure t := by
  unfold fieldsOf
  induction t with
  | nil => rfl
  | cons e t ih =>
    have hcons : Entries.ofTable (e :: t) = (.str e.1, e.2) :: Entries.ofTable t := rfl
    rw [hcons, each, ih]
    rfl

/-- A new mapping with entries under texts, over which those of another mapping are written. -/
def gather (base : Entries) (metrics : Value) : Work Entries := do
  match ← make fun s => s.addDict base with
  | .dict i =>
    updateFrom i metrics
    return (← store).dict i
  | _ => return []

theorem gather_eq (base : Table Value) {metrics : Table Value} {i : Nat} (hi : i < m.store.dicts.size)
    (hdict : m.store.dict i = .ofTable metrics) :
    ∃ m', gather (.ofTable base) (.dict i) σ m = (.done (.ofTable (base.merge metrics)), m') ∧ m.Silent m' := by
  let pushed : Machine := { m with store := (m.store.addDict (.ofTable base)).2 }
  let f (t : Entries) : Entries := (pushed.store.dict i).foldl (fun u e => pushed.store.setIn u e.1 e.2) t
  let m' : Machine := { pushed with store := pushed.store.updateDict m.store.dicts.size f }
  have hsame : pushed.store.dict i = m.store.dict i := (Grows.push _ _).same i hi []
  have hnew : m'.store.dict m.store.dicts.size = .ofTable (base.merge metrics) := by
    have hmodify : m'.store.dict m.store.dicts.size = f (.ofTable base) := by
      simp [m', pushed, Store.dict, Store.updateDict, Store.addDict, Array.getD_eq_getD_getElem?, Array.getElem_modify]
    rw [hmodify]
    unfold f
    rw [hsame, hdict, Store.foldl_setIn_ofTable]
  have hrun : gather (.ofTable base) (.dict i) σ m = (.done (m'.store.dict m.store.dicts.size), m') := rfl
  exact ⟨m', by rw [hrun, hnew], { Machine.Silent.refl m with dicts := (Grows.push _ _).modify (Nat.le_refl _) _ }⟩

/-- The fields that are reported of a span. -/
theorem spanFields_eq (hm : m₀.Preserved m) {span : Span} (h : Reports σ m₀ m span) :
    ∃ fields m', (do fieldsOf (← spanFields span) : Work (Table Value)) σ m = (.done fields, m') ∧ m.Silent m' ∧
      StepFields σ m₀ span.id span.parent.present fields := by
  obtain ⟨x, y, hstart, hend⟩ := h.times
  obtain ⟨i, metrics, hbag, hi, hdict, hmetrics⟩ := h.metrics
  obtain ⟨z, hduration⟩ := duration_eq (σ := σ) (m := m) hstart hend
  let parent : Table Value := if m.store.truthy span.parent then [("parent_span_id", span.parent)] else []
  let own : Table Value := [("duration_ms", .float z), ("span_id", span.id)] ++ parent
  have hparent : parent = span.parent.present.toList.map fun v => ("parent_span_id", v) := by
    unfold parent Value.present
    rcases h.above with hnull | htrue
    · rw [hnull]
      rfl
    · have hnull : span.parent ≠ .null := by
        intro hnull
        rw [hnull] at htrue
        cases htrue
      rw [if_pos htrue, if_neg hnull]
      rfl
  have hscalar := Value.isScalar_of_mem_present h.parent
  have hreads : spanFields span σ m = ((if span.error = .null then gather (.ofTable own) span.metrics else do
      let text ← printed span.error
      let s ← store
      gather (.ofTable (own ++ [("status", .str "error"), ("error_type", .str (s.typeName span.error)),
        ("error_message", .str text)])) span.metrics) : Work Entries) σ m := by
    unfold spanFields
    dsimp only
    rw [bind_eq, hduration]
    dsimp only
    rw [(gives_truth_of_isScalar h.parent m).bind_eq]
    unfold own parent
    by_cases hnull : span.error = .null
    · rw [if_pos hnull, if_pos hnull]
      cases m.store.truthy span.parent <;> rfl
    · rw [if_neg hnull, if_neg hnull]
      cases m.store.truthy span.parent <;> rfl
  -- Whatever is told of an error, it stands under names of its own.
  have hlast {m₁ : Machine} (hsilent : m.Silent m₁) (error : Table Value) (herror : Measures σ m₀ error) :
      ∃ m', gather (.ofTable (own ++ error)) span.metrics σ m₁ = (.done (.ofTable ((own ++ error).merge metrics)), m') ∧
        m.Silent m' ∧ StepFields σ m₀ span.id span.parent.present ((own ++ error).merge metrics) := by
    have hi₁ : i < m₁.store.dicts.size := Nat.lt_of_lt_of_le hi hsilent.dicts.size
    have hdict₁ : m₁.store.dict i = .ofTable metrics := (hsilent.dicts.same i hi []).trans hdict
    obtain ⟨m', hgather, hsilent'⟩ := gather_eq (σ := σ) (own ++ error) hi₁ hdict₁
    rw [hbag]
    have hreport : StepFields σ m₀ span.id span.parent.present own := by
      unfold own
      rw [hparent]
      exact stepFields_report h.id hscalar z
    exact ⟨m', hgather, hsilent.trans hsilent', (hreport.append herror).merge hmetrics⟩
  by_cases hnull : span.error = .null
  · obtain ⟨m', hgather, hsilent, hfields⟩ := hlast (.refl m) [] nofun
    refine ⟨_, m', ?_, hsilent, hfields⟩
    rw [bind_eq, hreads, if_pos hnull]
    rw [List.append_nil] at hgather ⊢
    rw [hgather]
    dsimp only
    rw [fieldsOf_ofTable]
    rfl
  · obtain ⟨text, m₁, htext, hsilent₁⟩ := h.error.resolve_left hnull m hm
    let error : Table Value := [("status", .str "error"), ("error_type", .str (m₁.store.typeName span.error)),
      ("error_message", .str text)]
    have hfree : ∀ name ∈ ["status", "error_type", "error_message"], name ∉ reservedNames := by decide
    have herror : Measures σ m₀ error := by
      intro e he
      simp only [error, List.mem_cons, List.not_mem_nil, or_false] at he
      rcases he with rfl | rfl | rfl <;> exact ⟨hfree _ (by simp), calm_see_of_isScalar rfl⟩
    obtain ⟨m', hgather, hsilent, hfields⟩ := hlast hsilent₁ error herror
    refine ⟨_, m', ?_, hsilent, hfields⟩
    have hread : spanFields span σ m = gather (.ofTable (own ++ error)) span.metrics σ m₁ := by
      rw [hreads, if_neg hnull, bind_eq, htext]
      rfl
    rw [bind_eq, hread, hgather]
    dsimp only
    rw [fieldsOf_ofTable]
    rfl

/-! ### Entries -/

/-- The names of the fields of a context that a step can be given. -/
def scopeNames : List String := ["processor", "stage", "file_path"]

/-- An entry of a step as it is recorded in a context: its event, the id of its span, the one above it or else that of the
context, and what is in the context. -/
structure StepEntry (names : List Nat) (event : String) (id : Value) (parent : Option Value) (c : LogContext) (d : Datum) :
    Prop where
  event : d.field? "event" = some (.str event)
  span : Shown names (some id) (d.field? "span_id")
  parent : Shown names (parent.or c.parentSpanId.present) (d.field? "parent_span_id")
  scope : ∀ name ∈ scopeNames, Shown names (c.field name).present (d.field? name)

theorem StepFields.entry {id : Value} {parent : Option Value} {fields : Table Value} {names : List Nat} {event : String}
    {c : LogContext} {d : Datum} (h : StepFields σ m₀ id parent fields) (hid : id.isScalar = true)
    (hparent : ∀ v ∈ parent, v.isScalar = true) (hc : c.Plain) (hd : Recorded names event fields c d) :
    StepEntry names event id parent c d := by
  have hfield (name : String) (hname : name ∉ entryNames) (hin : name ∈ LogContext.fieldNames)
      (hscalar : ∀ v ∈ fields.get? name, v.isScalar = true) :
      Shown names ((fields.get? name).or (c.field name).present) (d.field? name) := by
    have hshows := hd.field name hname
    rw [c.get?_entries hin] at hshows
    refine hshows fun v hv => ?_
    rcases Option.or_eq_some_iff.mp hv with hv | ⟨-, hv⟩
    · exact hscalar v hv
    · exact hc.present hin v hv
  refine ⟨hd.event, ?_, ?_, fun name hname => ?_⟩
  · have hspan := hfield "span_id" (by decide) (by decide)
    rw [h.span] at hspan
    exact hspan fun v hv => Option.some.inj hv ▸ hid
  · have habove := hfield "parent_span_id" (by decide) (by decide)
    rw [h.parent] at habove
    exact habove hparent
  · have hplaces : ∀ name ∈ scopeNames, name ∉ entryNames ∧ name ∈ LogContext.fieldNames ∧ name ∈ takenNames := by decide
    obtain ⟨hown, hin, htaken⟩ := hplaces name hname
    have hscope := hfield name hown hin
    rw [h.others name htaken] at hscope
    exact hscope nofun

/-- The first entry of a step is recorded. -/
theorem firstEntry_recorded (hm : m₀.Preserved m) (step : OpenStep) (span : Span) {event : String}
    (hchain : step.chain = none) (hevent : step.event = .str event) (hid : span.id.isScalar = true) (hparent : span.parent.isScalar = true)
    (habove : span.parent = .null ∨ m.store.truthy span.parent = true) {values : Table Value}
    (hmetrics : Measures σ m₀ (stepMetrics values)) (hplain : m.scope.fields.Plain) :
    ∃ d m', firstEntry step span (.bool true) values σ m = (.done step, m'.logged d) ∧ m.Silent m' ∧
      StepEntry m'.spanNames (event ++ ".start") span.id span.parent.present m.scope.fields d := by
  have hfields := stepFields_start (s := m.store) hid hparent habove hmetrics
  have hscalar := Value.isScalar_of_mem_present hparent
  obtain ⟨d, m', hrecord, hsilent, hd⟩ :=
    recordEntry_recorded hm hplain "unified.timing" .debug (event ++ ".start") hfields.shows
  refine ⟨d, m', ?_, hsilent, hfields.entry hid hscalar hplain hd⟩
  have hevents : ∀ name ∈ ["event", "self", "method_name"], name ∈ takenNames := by decide
  have htext : (stepEvent step.event ".start").Gives m (.str (event ++ ".start")) m := by
    rw [hevent]
    exact gives_stepEvent event ".start" m
  unfold firstEntry
  rw [(gives_truth_of_isScalar rfl m).bind_eq]
  change (truth span.parent >>= _) σ m = _
  rw [(gives_truth_of_isScalar hparent m).bind_eq, htext.bind_eq, hchain,
    write_none _ _ _ fun name hname => hfields.others name (hevents name hname), bind_eq, hrecord]
  rfl

/-- The last entry of a step is recorded by the method that its level names. -/
theorem writeLast_recorded (hm : m₀.Preserved m) (step : OpenStep) {event level : String} {method : LogMethod}
    (hchain : step.chain = none) (hlogging : m.logging.chain = none) (hevent : step.event = .str event)
    (hlevel : LoggerPart.ofName? false level = some (.method method)) (hplain : m.scope.fields.Plain)
    (hspan : Reports σ m₀ m (m.store.span step.span)) (ending : String) :
    ∃ d m', writeLast step (.str level) ending σ m = (.done (), m'.logged d) ∧ m.Silent m' ∧
      StepEntry m'.spanNames (event ++ ending) (m.store.span step.span).id (m.store.span step.span).parent.present
        m.scope.fields d := by
  obtain ⟨fields, m₁, hread, hsilent, hfields⟩ := spanFields_eq hm hspan
  have hplain₁ : m₁.scope.fields.Plain := hsilent.scope ▸ hplain
  obtain ⟨d, m₂, hrecord, hsilent₂, hd⟩ := recordEntry_recorded (hm.trans hsilent.toPreserved) hplain₁
    "unified.timing" method (event ++ ending) hfields.shows
  rw [hsilent.scope] at hd
  have hscalar := Value.isScalar_of_mem_present hspan.parent
  refine ⟨d, m₂, ?_, hsilent.trans hsilent₂, hfields.entry hspan.id hscalar hplain hd⟩
  have hnone : step.chain.or m.logging.chain = none := by rw [hchain, hlogging]; rfl
  have hevents : ∀ name ∈ ["event", "self", "method_name"], name ∈ takenNames := by decide
  rw [writeLast_write hnone hevent hlevel ending hread,
    write_none _ _ _ fun name hname => hfields.others name (hevents name hname), hrecord]

end Work
end Treeworks
