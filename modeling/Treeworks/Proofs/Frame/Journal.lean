import Treeworks.Proofs.Frame.Showing

/-! Logging keeps to every discipline. What the logging context holds are scalars, so that an entry takes them over as
they are; a timed step puts scalars there too. -/
namespace Treeworks.Work
variable {α : Type} {D : Discipline}

/-! ### Entries -/

/-- A scalar is taken over as it is. -/
theorem takenOver_of_isScalar {v : Value} (h : v.isScalar = true) (fuel : Nat) : takenOver (fuel + 1) v = pure v := by
  cases v <;> first | rfl | cases h

/-- A logging context of scalars is taken over as it is. -/
theorem contextFields_eq {m : Machine} (h : m.scope.fields.Plain) (σ : Service) :
    contextFields σ m = (.done m.scope.fields.entries, m) := by
  have htaken : ∀ t : Table Value, (∀ e ∈ t, e.2.isScalar = true) →
      (each (fun e => do return (e.1, ← takenOver seenDepth e.2)) t : Work (Table Value)) = pure t := by
    intro t ht
    induction t with
    | nil => rfl
    | cons e t ih =>
      have he : takenOver seenDepth e.2 = pure e.2 := takenOver_of_isScalar (ht e (.head _)) _
      unfold each
      rw [ih fun e' h => ht e' (.tail _ h), he]
      rfl
  exact congrFun (congrFun (htaken m.scope.fields.entries h.entries) σ) m

@[grind ←]
theorem keeps_contextFields : contextFields.Keeps D := by
  intro σ hσ m
  refine D.of_proper fun hm => ?_
  rw [contextFields_eq (D.plain hm)]
  exact D.refl m

@[grind ←]
theorem keeps_entryFields (fields : Table Value) : (entryFields fields).Keeps D := keeps_fieldData keeps_see fields

@[grind ←]
theorem keeps_recordEntry (logger : String) (method : LogMethod) (event : Value) (fields : Table Value) :
    (recordEntry logger method event fields).Keeps D := by
  unfold recordEntry
  refine keeps_bind keeps_contextFields fun t => keeps_bind (keeps_entryFields _) fun shown => ?_
  exact keeps_bind (keeps_see event) fun _ => keeps_modify fun m => D.aside { Aside.refl m with }

@[grind ←]
theorem keeps_streamFields (fields : Table Value) : (streamFields fields).Keeps D := by
  unfold streamFields
  grind

@[grind ←]
theorem keeps_linesOf (format : LogFormat) (logger : String) (method : LogMethod) (event : Value)
    (fields : Table Value) : (linesOf format logger method event fields).Keeps D := by
  unfold linesOf
  grind

@[grind ←]
theorem keeps_passesFamily (f : FamilyFilter) (own context method : Value) :
    (passesFamily f own context method).Keeps D := by
  unfold passesFamily
  grind

@[grind ←]
theorem keeps_passes (chain : Chain) (logger : String) (method : LogMethod) (own : Value) :
    (passes chain logger method own).Keeps D := by
  unfold passes
  grind

@[grind ←]
theorem keeps_stream (chain : Chain) (logger : String) (method : LogMethod) (event : Value) (fields : Table Value) :
    (stream chain logger method event fields).Keeps D := by
  unfold stream
  refine keeps_bind (keeps_passes _ _ _ _) fun passed => ?_
  split
  · dsimp only
    generalize (if logger = "" then "root" else logger) = name
    refine keeps_bind (keeps_linesOf _ _ _ _ _) fun lines => keeps_bind keeps_machine fun m => ?_
    split
    · exact keeps_modify fun m => D.aside { Aside.refl m with }
    · exact keeps_pure _
  · exact keeps_pure _

@[grind ←]
theorem keeps_checkFields (callee : String) (fields : Table Value) : (checkFields callee fields).Keeps D := by
  unfold checkFields
  grind

@[grind ←]
theorem keeps_write (chain : Option Chain) (logger : String) (method : LogMethod) (event : Value)
    (fields : Table Value) : (write chain logger method event fields).Keeps D := by
  unfold write
  grind

@[grind ←]
theorem keeps_log (logger : String) (method : LogMethod) (event : String) (fields : Table Value) :
    (log logger method event fields).Keeps D := by
  unfold log
  refine keeps_bind keeps_machine fun m => ?_
  refine keeps_bind (keeps_modify fun m => D.aside { Aside.refl m with }) fun _ => ?_
  exact keeps_write _ _ _ _ _

@[grind ←]
theorem keeps_loggerPart (chain : Option Chain) (name : Value) : (loggerPart chain name).Keeps D := by
  unfold loggerPart
  grind

@[grind ←]
theorem keeps_usePart (part : LoggerPart) (chain : Option Chain) (logger : String) (event : Value)
    (fields : Table Value) : (usePart part chain logger event fields).Keeps D := by
  unfold usePart
  grind

/-! ### Spans -/

@[grind ←]
theorem keeps_updateSpan (i : Nat) (f : Span → Span) : (updateSpan i f).Keeps D :=
  keeps_modifyStore fun m => D.aside { Aside.refl m with }

@[grind ←]
theorem keeps_stopSpan (i : Nat) : (stopSpan i).Keeps D := keeps_updateSpan i _

@[grind ←]
theorem keeps_duration (span : Span) : (duration span).Keeps D := by
  unfold duration
  grind

@[grind ←]
theorem keeps_spanFields (span : Span) : (spanFields span).Keeps D := by
  unfold spanFields
  extract_lets entry
  refine keeps_bind (keeps_duration span) fun d => ?_
  extract_lets base
  refine keeps_bind (keeps_truth _) fun hasParent => ?_
  extract_lets parent ending
  have hending (error : Entries) : (ending error).Keeps D := by
    refine keeps_addDict _ fun i => keepsWith_seq (keepsWith_updateFrom i _) fun _ => ?_
    exact (keeps_bind keeps_store fun s => keeps_pure _).with
  split
  · exact keeps_bind (keeps_pure _) hending
  · refine keeps_bind (keeps_printed _) fun text => keeps_bind keeps_store fun s => ?_
    exact keeps_bind (keeps_pure _) hending

@[grind ←]
theorem keeps_fieldsOf (entries : Entries) : (fieldsOf entries).Keeps D := by
  unfold fieldsOf
  grind

@[grind ←]
theorem keeps_stepEvent (event : Value) (ending : String) : (stepEvent event ending).Keeps D := by
  unfold stepEvent
  grind

/-! ### Timed steps -/

/-- A timed step begins with a span below the current one. -/
theorem newSpan_eq (step : Value) (metrics : Table Value) (σ : Service) (m : Machine) :
    ∃ m', newSpan step metrics σ m = (.done m.store.spans.size, m') ∧ Aside m m' ∧
      (m'.store.spans.getD m.store.spans.size default).id = .spanId m.spanIds ∧
      (m'.store.spans.getD m.store.spans.size default).parent = m.scope.fields.spanId := by
  refine ⟨_, rfl, ?_, ?_, ?_⟩
  · exact (Aside.addDict m (.ofTable metrics)).trans { Aside.refl _ with }
  · simp
  · simp [Machine.scope]

theorem keeps_setScope {c : LogContext} (h : c.Plain) : (setScope c).Keeps D := keeps_modify fun _ => D.set_scope h

theorem keeps_pushScope {c : LogContext} (h : c.Plain) : (pushScope c).Keeps D := by
  have hpush : ∀ σ m, D.holds m (modifyStore (fun s => { s with tokens := s.tokens.push ⟨m.cell, m.scope, false⟩ }) σ m).2 :=
    fun _ m => D.push_token m
  intro σ hσ m
  exact D.trans (hpush σ m) (keeps_setScope h σ hσ _)

@[grind ←]
theorem keeps_restoreScope (token : Nat) : (restoreScope token).Keeps D := by
  intro σ hσ m
  have hrestore : restoreScope token σ m =
      (if (m.store.tokens.getD token default).used then fail .usedToken
      else if (m.store.tokens.getD token default).cell ≠ m.cell then fail .foreignToken
      else modify fun m' => { m' with
        cells := m'.cells.set! m'.cell (m.store.tokens.getD token default).previous
        store := { m'.store with tokens := m'.store.tokens.modify token fun t => { t with used := true } } } : Work Unit)
        σ m := rfl
  rw [hrestore]
  split
  · exact keeps_fail _ σ hσ m
  · split
    · exact keeps_fail _ σ hσ m
    · exact D.use_token m token

/-- A timed step may be opened that puts scalars into the logging context. -/
theorem keeps_openStep (event logStart level : Value) {values : Table Value}
    (h : ∀ e ∈ values, e.2.isScalar = true) : (openStep event logStart level values).Keeps D := by
  intro σ hσ m
  refine D.of_proper fun hm => ?_
  unfold openStep
  obtain ⟨m', hspan, haside, hid, hparent⟩ :=
    newSpan_eq event (values.filter fun e => !isScopeName e.1) σ m
  have hm' := D.proper_of_holds (D.aside haside) hm
  rw [bind_eq, hspan]
  dsimp only
  rw [bind_eq]
  dsimp only [machine]
  refine D.trans (D.aside haside) ?_
  have hplain : (m'.scope.fields.merge
      ([("span_id", (m'.store.spans.getD m.store.spans.size default).id),
        ("parent_span_id", (m'.store.spans.getD m.store.spans.size default).parent)] ++
        values.filter fun e => isScopeName e.1)).Plain := by
    refine (D.plain hm').merge fun e he => ?_
    rw [hid, hparent] at he
    simp only [List.cons_append, List.nil_append, List.mem_cons, List.mem_filter] at he
    rcases he with rfl | rfl | ⟨he, -⟩
    · rfl
    · exact D.plain hm _ (by simp)
    · exact h e he
  refine keeps_bind (keeps_pushScope hplain) (fun token => ?_) σ hσ m'
  refine keeps_bind (keeps_attempt (keeps_bind (keeps_truth _) fun logs => ?_)) fun started => ?_
  · split <;> grind
  · split <;> grind

@[grind ←]
theorem keeps_stepChain (step : OpenStep) : (stepChain step).Keeps D := by
  unfold stepChain
  grind

@[grind ←]
theorem keeps_writeLast (step : OpenStep) (level : Value) (ending : String) :
    (writeLast step level ending).Keeps D := by
  unfold writeLast
  grind

@[grind ←]
theorem keeps_closeStep (step : OpenStep) (result : Except Value α) : (closeStep step result).Keeps D := by
  unfold closeStep
  split
  · grind
  · rename_i e
    refine keeps_bind (keeps_isOrdinary e) fun ordinary => ?_
    have hrest (last : Except Value Unit) :
        (do handling e (restoreScope step.token); let _ ← release last; reraise e : Work α).Keeps D := by
      grind
    split
    · refine keeps_bind (keeps_stopSpan _) fun _ => keeps_bind (keeps_updateSpan _ _) fun _ => ?_
      exact keeps_bind (keeps_attempt (keeps_handling e (keeps_writeLast _ _ _))) hrest
    · exact keeps_bind (keeps_pure _) hrest

end Treeworks.Work
