import Treeworks.Log.Line
import Treeworks.Proofs.Heed.Asking

/-! Texts of values, positions, diagnostics and what is seen of values: to make them heeds every frame, whatever has to
be asked for them. -/
namespace Treeworks.Work
variable {α : Type} {F : Frame}

/-! ### Texts -/

/-- What the fuel bounds heeds the configuration if it does so with less fuel: the texts of values refer to those of
what is in them, and to one another. -/
theorem heeds_texts (fuel : Nat) :
    (∀ shown v, (writtenAt fuel shown v).Heeds F) ∧ (∀ v, (printedAt fuel v).Heeds F) ∧
      (∀ v, (formattedAt fuel v).Heeds F) ∧ (∀ i, (pathAt fuel i).Heeds F) ∧ ∀ v, (startAt fuel v).Heeds F := by
  induction fuel with
  | zero =>
    refine ⟨fun _ _ => ?_, fun _ => ?_, fun _ => ?_, fun _ => ?_, fun _ => ?_⟩
    · unfold writtenAt; grind
    · unfold printedAt; grind
    · unfold formattedAt; grind
    · unfold pathAt; grind
    · unfold startAt; grind
  | succ fuel ih =>
    obtain ⟨hwritten, hprinted, hformatted, hpath, hstart⟩ := ih
    refine ⟨fun shown v => ?_, fun v => ?_, fun v => ?_, fun i => ?_, fun v => ?_⟩
    · unfold writtenAt
      refine heeds_bind heeds_store fun s => heeds_bind (heeds_special v _) fun m => ?_
      split
      · exact heeds_textBy _ _
      · split <;> grind
    · unfold printedAt
      refine heeds_bind heeds_store fun s => heeds_bind (heeds_special v _) fun m => ?_
      split
      · exact heeds_textBy _ _
      · split
        case h_4 =>
          split
          · refine heeds_bind (heeds_truth _) fun b => ?_
            split <;> grind
          · split <;> grind
        all_goals grind
    · unfold formattedAt
      grind
    · unfold pathAt
      refine heeds_overridden _ _ _ (heeds_bind (heeds_query _) fun f => ?_)
      refine heeds_bind (heeds_truth _) fun hasName => ?_
      split
      · exact heeds_pure _
      · refine heeds_bind (heeds_truth _) fun hasExtension => ?_
        split <;> grind
    · unfold startAt
      grind

@[grind ←]
theorem heeds_written (v : Value) : (written v).Heeds F := (heeds_texts _).1 [] v

@[grind ←]
theorem heeds_printed (v : Value) : (printed v).Heeds F := (heeds_texts _).2.1 v

@[grind ←]
theorem heeds_formatted (v : Value) : (formatted v).Heeds F := (heeds_texts _).2.2.1 v

@[grind ←]
theorem heeds_filePath (i : Nat) : (filePath i).Heeds F := (heeds_texts _).2.2.2.1 i

@[grind ←]
theorem heeds_filePath? (i : Nat) : (filePath? i).Heeds F := by
  unfold filePath?
  grind

/-! ### Positions -/

@[grind ←]
theorem heeds_pointText (p : Point) : (pointText p).Heeds F := by
  unfold pointText
  grind

@[grind ←]
theorem heeds_positionName (fuel : Nat) (v : Value) : (positionName fuel v).Heeds F := by
  induction fuel generalizing v with
  | zero => exact heeds_fail _
  | succ fuel ih =>
    unfold positionName
    split
    · exact heeds_pure _
    · refine heeds_bind heeds_store fun s => ?_
      split
      · split
        · exact ih _
        · refine heeds_bind (ih _) fun first => heeds_bind (heeds_truth _) fun ends => ?_
          split <;> grind
        · exact heeds_pointText _
      · split <;> grind

@[grind ←]
theorem heeds_positionStart (fuel : Nat) (v : Value) : (positionStart fuel v).Heeds F := by
  induction fuel generalizing v with
  | zero => exact heeds_fail _
  | succ fuel ih =>
    unfold positionStart
    grind

/-! ### Contexts of errors -/

@[grind ←]
theorem heeds_pairOf (v : Value) : (pairOf v).Heeds F := by
  unfold pairOf
  grind

@[grind ←]
theorem heeds_updateFrom (dict : Nat) (v : Value) : (updateFrom dict v).Heeds F := by
  unfold updateFrom
  refine heeds_bind (heeds_query _) fun entries => ?_
  split
  · exact heeds_modifyStore fun s => s.settled_updateDict dict _
  · refine heeds_bind (heeds_attr? v "keys") fun keys => ?_
    split
    · refine heeds_bind (heeds_callMethod _ _ _) fun keys => heeds_bind (heeds_elements keys) fun ks => ?_
      refine heeds_bind (heeds_each (fun key => ?_) ks) fun _ => heeds_pure _
      exact heeds_bind (heeds_itemOf v key) fun w => heeds_setEntry dict key w
    · refine heeds_bind (heeds_elements v) fun pairs => ?_
      refine heeds_bind (heeds_each (fun pair => ?_) pairs) fun _ => heeds_pure _
      exact heeds_bind (heeds_pairOf pair) fun e => heeds_setEntry dict e.1 e.2

@[grind ←]
theorem heeds_addToContext [F.Lax] (context : Value) (name : String) (value : Value) :
    (addToContext context name value).Heeds F := by
  have hset := heeds_setAttribute (Frame.Lax.stores (F := F) context name) value
  unfold addToContext
  grind

@[grind ←]
theorem heeds_withContext [F.Lax] (fault : Value) (values : Table Value) : (withContext fault values).Heeds F := by
  fun_induction withContext fault values <;> grind

@[grind ←]
theorem heeds_contextMapping (context : Value) : (contextMapping context).Heeds F := by
  unfold contextMapping
  grind

@[grind ←]
theorem heeds_contextDict (context : Value) : (contextDict context).Heeds F := by
  unfold contextDict
  grind

/-! ### Values as they are seen -/

@[grind ←]
theorem heeds_isFatal (v : Value) : (isFatal v).Heeds F := by
  unfold isFatal
  grind

@[grind ←]
theorem heeds_spanName (n : Nat) : (spanName n).Heeds F := by
  refine heeds_of_holds (fun σ σ' m => rfl) fun σ m => ?_
  unfold spanName
  split
  · exact F.refl m
  · exact F.beside rfl rfl rfl

@[grind ←]
theorem heeds_observeEntries {f : Value → Work Datum} (hf : ∀ v, (f v).Heeds F) (t : Entries) :
    (observeEntries f t).Heeds F := by
  unfold observeEntries
  grind

@[grind ←]
theorem heeds_diagnosticLine (v : Value) : (diagnosticLine v).Heeds F := by
  unfold diagnosticLine
  grind

/-- What is seen of values refers to what is seen of those in them, with less fuel. -/
theorem heeds_observation (fuel : Nat) :
    (∀ v, (observeFault fuel v).Heeds F) ∧ (∀ v, (observe fuel v).Heeds F) ∧
      (∀ i, (observeFile fuel i).Heeds F) ∧ ∀ v, (observeContent fuel v).Heeds F := by
  induction fuel with
  | zero =>
    refine ⟨fun _ => ?_, fun _ => ?_, fun _ => ?_, fun _ => ?_⟩
    · unfold observeFault; grind
    · unfold observe; grind
    · unfold observeFile; grind
    · unfold observeContent; grind
  | succ fuel ih =>
    obtain ⟨hfault, hvalue, hfile, hcontent⟩ := ih
    refine ⟨fun v => ?_, fun v => ?_, fun i => ?_, fun v => ?_⟩
    · unfold observeFault
      refine heeds_bind heeds_machine fun m => heeds_bind (heeds_printed v) fun text => ?_
      dsimp only
      split <;> grind
    · unfold observe
      grind
    · unfold observeFile
      refine heeds_bind (heeds_query _) fun f => heeds_bind (hvalue _) fun _ => heeds_bind (hvalue _) fun _ => ?_
      refine heeds_bind (hvalue _) fun _ => heeds_bind (hvalue _) fun _ => heeds_bind (hvalue _) fun _ => ?_
      refine heeds_bind (heeds_filePath i) fun path => heeds_bind (hvalue path) fun _ => ?_
      refine heeds_bind (heeds_elements _) fun messages => ?_
      refine heeds_bind (heeds_each heeds_diagnosticLine _) fun _ => heeds_bind (heeds_query _) fun bags => ?_
      split <;> grind
    · unfold observeContent
      refine heeds_bind heeds_store fun s => ?_
      split <;> grind

@[grind ←]
theorem heeds_see (v : Value) : (see v).Heeds F := (heeds_observation _).2.1 v

@[grind ←]
theorem heeds_seeTable (t : Table Value) : (seeTable t).Heeds F := heeds_eachValue heeds_see t

@[grind ←]
theorem heeds_seeFault (v : Value) : (seeFault v).Heeds F := (heeds_observation _).1 v

@[grind ←]
theorem heeds_seeFaultFields (v : Value) : (seeFaultFields v).Heeds F := by
  unfold seeFaultFields
  grind

@[grind ←]
theorem heeds_seeFile (i : Nat) : (seeFile i).Heeds F := (heeds_observation _).2.2.1 i

@[grind ←]
theorem heeds_seeContent (v : Value) : (seeContent v).Heeds F := (heeds_observation _).2.2.2 v

@[grind ←]
theorem heeds_register (id : String) (v : Value) : (register id v).Heeds F :=
  heeds_modify fun _ => F.beside rfl rfl rfl

@[grind ←]
theorem heeds_isRegistered (v : Value) : (isRegistered v).Heeds F := by
  unfold isRegistered
  grind

/-! ### Values in log entries -/

@[grind ←]
theorem heeds_consoleText (v : Value) : (consoleText v).Heeds F := by
  unfold consoleText
  grind

@[grind ←]
theorem heeds_appended (fields : Table Value) (name : String) : (appended fields name).Heeds F := by
  unfold appended
  grind

@[grind ←]
theorem heeds_consoleEntry (event logger : String) (fields : Table Value) :
    (consoleEntry event logger fields).Heeds F := by
  unfold consoleEntry
  grind

@[grind ←]
theorem heeds_reportLine (fault : Nat) : (reportLine fault).Heeds F := by
  unfold reportLine
  grind

@[grind ←]
theorem heeds_errorReport (fault : Nat) (known : List Nat) (fuel : Nat) : (errorReport fault known fuel).Heeds F := by
  induction fuel generalizing fault known with
  | zero => exact heeds_reportLine fault
  | succ fuel ih =>
    unfold errorReport
    grind

@[grind ←]
theorem heeds_lineDatum (fuel : Nat) (around : List Value) (v : Value) : (lineDatum fuel around v).Heeds F := by
  induction fuel generalizing around v with
  | zero => exact heeds_fail _
  | succ fuel ih =>
    unfold lineDatum
    dsimp only
    split
    · refine heeds_bind (heeds_fail _) fun _ => heeds_bind heeds_store fun s => ?_
      split <;> grind
    · refine heeds_bind heeds_store fun s => ?_
      split <;> grind

@[grind ←]
theorem heeds_fieldData {f : Value → Work Datum} (hf : ∀ v, (f v).Heeds F) (fields : Table Value) :
    (fieldData f fields).Heeds F := by
  unfold fieldData
  grind

@[grind ←]
theorem heeds_lineData (fields : Table Value) : (lineData fields).Heeds F := heeds_fieldData (heeds_lineDatum _ _) fields

end Treeworks.Work
