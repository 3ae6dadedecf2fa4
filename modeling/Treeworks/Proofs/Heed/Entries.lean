import Treeworks.Log.Journal
import Treeworks.Proofs.Heed.Copies

/-! Log entries heed every frame, contexts and timed steps those that ask nothing of lines of control. A logger that is
kept is given the chain in force when it is first used under one; nothing else of the configuration changes. -/
namespace Treeworks.Work
variable {α : Type} {F : Frame}

/-! ### Entries -/

@[grind ←]
theorem heeds_takenOver (fuel : Nat) (v : Value) : (takenOver fuel v).Heeds F := by
  induction fuel generalizing v with
  | zero => exact heeds_fail _
  | succ fuel ih =>
    unfold takenOver
    refine heeds_bind heeds_store fun s => ?_
    split <;> grind

@[grind ←]
theorem heeds_contextFields : contextFields.Heeds F := by
  unfold contextFields
  grind

@[grind ←]
theorem heeds_entryFields (fields : Table Value) : (entryFields fields).Heeds F := heeds_fieldData heeds_see fields

@[grind ←]
theorem heeds_recordEntry (logger : String) (method : LogMethod) (event : Value) (fields : Table Value) :
    (recordEntry logger method event fields).Heeds F := by
  unfold recordEntry
  refine heeds_bind heeds_contextFields fun t => heeds_bind (heeds_entryFields _) fun shown => ?_
  exact heeds_bind (heeds_see event) fun _ => heeds_modify fun _ => F.beside rfl rfl rfl

@[grind ←]
theorem heeds_streamFields (fields : Table Value) : (streamFields fields).Heeds F := by
  unfold streamFields
  grind

@[grind ←]
theorem heeds_linesOf (format : LogFormat) (logger : String) (method : LogMethod) (event : Value)
    (fields : Table Value) : (linesOf format logger method event fields).Heeds F := by
  unfold linesOf
  grind

@[grind ←]
theorem heeds_passesFamily (f : FamilyFilter) (own context method : Value) :
    (passesFamily f own context method).Heeds F := by
  unfold passesFamily
  grind

@[grind ←]
theorem heeds_passes (chain : Chain) (logger : String) (method : LogMethod) (own : Value) :
    (passes chain logger method own).Heeds F := by
  unfold passes
  grind

@[grind ←]
theorem heeds_stream (chain : Chain) (logger : String) (method : LogMethod) (event : Value) (fields : Table Value) :
    (stream chain logger method event fields).Heeds F := by
  unfold stream
  refine heeds_bind (heeds_passes _ _ _ _) fun passed => ?_
  split
  · dsimp only
    generalize (if logger = "" then "root" else logger) = name
    refine heeds_bind (heeds_linesOf _ _ _ _ _) fun lines => heeds_bind heeds_machine fun m => ?_
    split
    · exact heeds_modify fun _ => F.beside rfl rfl rfl
    · exact heeds_pure _
  · exact heeds_pure _

@[grind ←]
theorem heeds_checkFields (callee : String) (fields : Table Value) : (checkFields callee fields).Heeds F := by
  unfold checkFields
  grind

@[grind ←]
theorem heeds_write (chain : Option Chain) (logger : String) (method : LogMethod) (event : Value)
    (fields : Table Value) : (write chain logger method event fields).Heeds F := by
  unfold write
  grind

/-- A logger that is kept is used here, and here alone. -/
@[grind ←]
theorem heeds_log (logger : String) (method : LogMethod) (event : String) (fields : Table Value) :
    (log logger method event fields).Heeds F where
  ends hσ m hm hcounts :=
    have hused := F.used (.chainOf m.logging logger)
    F.trans hused ((heeds_write _ logger method (.str event) fields).ends hσ (F.keeps hused hm) hcounts)
  relies hσ m hm hagree :=
    have hused := F.used (.chainOf m.logging logger)
    (heeds_write _ logger method (.str event) fields).relies hσ (F.keeps hused hm) (hagree.mono hused)

@[grind ←]
theorem heeds_loggerPart (chain : Option Chain) (name : Value) : (loggerPart chain name).Heeds F := by
  unfold loggerPart
  grind

@[grind ←]
theorem heeds_usePart (part : LoggerPart) (chain : Option Chain) (logger : String) (event : Value)
    (fields : Table Value) : (usePart part chain logger event fields).Heeds F := by
  unfold usePart
  grind

@[grind ←]
theorem heeds_logAfresh (logger : String) (level event : Value) (fields : Table Value) :
    (logAfresh logger level event fields).Heeds F := by
  unfold logAfresh
  grind

/-! ### Contexts -/

@[grind ←]
theorem heeds_setScope [F.Free] (c : LogContext) : (setScope c).Heeds F := heeds_free fun _ => ⟨rfl, rfl⟩

@[grind ←]
theorem heeds_pushScope [F.Free] (c : LogContext) : (pushScope c).Heeds F := by
  refine heeds_bind heeds_machine fun m => heeds_bind ?_ fun _ => heeds_bind (heeds_setScope c) fun _ => heeds_pure _
  exact heeds_modify fun m => Frame.Free.holds rfl rfl (Nat.le_refl _)

@[grind ←]
theorem heeds_restoreScope [F.Free] (token : Nat) : (restoreScope token).Heeds F := by
  unfold restoreScope
  refine heeds_bind heeds_machine fun m => ?_
  dsimp only
  split
  · exact heeds_fail _
  · split
    · exact heeds_fail _
    · exact heeds_modify fun _ => Frame.Free.holds rfl rfl (Nat.le_refl _)

@[grind ←]
theorem heeds_newCell [F.Free] : newCell.Heeds F := heeds_of_holds (fun _ _ _ => rfl) fun _ _ => Frame.Free.holds rfl rfl (Nat.le_refl _)

@[grind ←]
theorem heeds_withinScope [F.Free] (values : Table Value) {w : Work α} (hw : w.Heeds F) : (withinScope values w).Heeds F := by
  unfold withinScope
  grind

/-! ### Spans and timed steps -/

@[grind ←]
theorem heeds_newSpanId [F.Free] : newSpanId.Heeds F := heeds_of_holds (fun _ _ _ => rfl) fun _ _ => Frame.Free.holds rfl rfl (Nat.le_refl _)

@[grind ←]
theorem heeds_newSpan [F.Free] (step : Value) (metrics : Table Value) : (newSpan step metrics).Heeds F := by
  unfold newSpan
  grind

@[grind ←]
theorem heeds_updateSpan (i : Nat) (f : Span → Span) : (updateSpan i f).Heeds F :=
  heeds_modifyStore fun _ => ⟨rfl, Nat.le_refl _, .of_eq rfl⟩

@[grind ←]
theorem heeds_stopSpan (i : Nat) : (stopSpan i).Heeds F := heeds_updateSpan i _

@[grind ←]
theorem heeds_duration (span : Span) : (duration span).Heeds F := by
  unfold duration
  grind

@[grind ←]
theorem heeds_spanFields (span : Span) : (spanFields span).Heeds F := by
  unfold spanFields
  extract_lets entry
  refine heeds_bind (heeds_duration span) fun d => ?_
  extract_lets base
  refine heeds_bind (heeds_truth _) fun hasParent => ?_
  extract_lets parent ending
  have hending (error : Entries) : (ending error).Heeds F := by
    refine heeds_bind (heeds_make fun s => s.settled_addDict _) fun v => ?_
    split <;> grind
  split
  · exact heeds_bind (heeds_pure _) hending
  · refine heeds_bind (heeds_printed _) fun text => heeds_bind heeds_store fun s => ?_
    exact heeds_bind (heeds_pure _) hending

@[grind ←]
theorem heeds_fieldsOf (entries : Entries) : (fieldsOf entries).Heeds F := by
  unfold fieldsOf
  grind

@[grind ←]
theorem heeds_stepEvent (event : Value) (ending : String) : (stepEvent event ending).Heeds F := by
  unfold stepEvent
  grind

@[grind ←]
theorem heeds_openStep [F.Free] (event logStart level : Value) (values : Table Value) :
    (openStep event logStart level values).Heeds F := by
  unfold openStep
  refine heeds_bind (heeds_newSpan _ _) fun i => heeds_bind heeds_machine fun m => ?_
  refine heeds_bind (heeds_pushScope _) fun token => ?_
  refine heeds_bind (heeds_attempt (heeds_bind (heeds_truth _) fun logs => ?_)) fun started => ?_
  · split <;> grind
  · split <;> grind

@[grind ←]
theorem heeds_stepChain (step : OpenStep) : (stepChain step).Heeds F := by
  unfold stepChain
  grind

@[grind ←]
theorem heeds_writeLast (step : OpenStep) (level : Value) (ending : String) : (writeLast step level ending).Heeds F := by
  unfold writeLast
  grind

@[grind ←]
theorem heeds_closeStep [F.Free] (step : OpenStep) (result : Except Value α) : (closeStep step result).Heeds F := by
  unfold closeStep
  split
  · grind
  · rename_i e
    refine heeds_bind (heeds_isOrdinary e) fun ordinary => ?_
    have hrest (last : Except Value Unit) :
        (do handling e (restoreScope step.token); let _ ← release last; reraise e : Work α).Heeds F := by
      grind
    split
    · refine heeds_bind (heeds_stopSpan _) fun _ => heeds_bind (heeds_updateSpan _ _) fun _ => ?_
      exact heeds_bind (heeds_attempt (heeds_handling e (heeds_writeLast _ _ _))) hrest
    · exact heeds_bind (heeds_pure _) hrest

end Treeworks.Work
