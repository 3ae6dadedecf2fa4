import Treeworks.Log.Line
import Treeworks.Proofs.Frame.Wording

/-! What scripts and log entries get to see of values. To show them keeps to every discipline: the mapping of an error's
context is the one thing that is written to on the way, and it is new. -/
namespace Treeworks.Work
variable {α : Type} {D : Discipline}

/-! ### Contexts of errors -/

@[grind ←]
theorem keeps_pairOf (v : Value) : (pairOf v).Keeps D := by
  unfold pairOf
  grind

/-- Entries are written into a dictionary that is spare, one after the other. -/
theorem keepsWith_each {v : Value} {f : α → Work Unit} (hf : ∀ a, (f a).KeepsWith D v) :
    ∀ as : List α, (each f as).KeepsWith D v
  | [] => (keeps_pure []).with
  | a :: as => keepsWith_seq (hf a) fun _ => keepsWith_seq (keepsWith_each hf as) fun _ => (keeps_pure _).with

theorem keepsWith_updateFrom (i : Nat) (v : Value) : (updateFrom i v).KeepsWith D (.dict i) := by
  unfold updateFrom
  refine keepsWith_bind (keeps_query _) fun entries => ?_
  split
  · exact fun _ _ m h => D.write_dict h _
  · refine keepsWith_bind (keeps_attr? v "keys") fun keys => ?_
    split
    · refine keepsWith_bind (keeps_callMethod _ _ _) fun keys => keepsWith_bind (keeps_elements keys) fun ks => ?_
      refine keepsWith_seq (keepsWith_each (fun key => ?_) ks) fun _ => (keeps_pure _).with
      exact keepsWith_bind (keeps_itemOf v key) fun w => keepsWith_setEntry i key w
    · refine keepsWith_bind (keeps_elements v) fun pairs => ?_
      refine keepsWith_seq (keepsWith_each (fun pair => ?_) pairs) fun _ => (keeps_pure _).with
      exact keepsWith_bind (keeps_pairOf pair) fun e => keepsWith_setEntry i e.1 e.2

@[grind ←]
theorem keeps_contextMapping (context : Value) : (contextMapping context).Keeps D := by
  unfold contextMapping
  refine keeps_bind (by grind) fun parts => keeps_bind (keeps_attr _ _) fun bag => keeps_addDict _ fun i => ?_
  refine keepsWith_bind (keeps_truth bag) fun filled => ?_
  split
  · exact keepsWith_seq (keepsWith_updateFrom i bag) fun _ => (keeps_pure _).with
  · exact (keeps_pure _).with

@[grind ←]
theorem keeps_contextDict (context : Value) : (contextDict context).Keeps D := by
  unfold contextDict
  grind

/-! ### Values as they are seen -/

@[grind ←]
theorem keeps_isFatal (v : Value) : (isFatal v).Keeps D := by
  unfold isFatal
  grind

@[grind ←]
theorem keeps_spanName (n : Nat) : (spanName n).Keeps D := by
  intro σ _ m
  unfold spanName
  split
  · exact D.refl m
  · exact D.aside { Aside.refl m with }

@[grind ←]
theorem keeps_observeEntries {f : Value → Work Datum} (hf : ∀ v, (f v).Keeps D) (t : Entries) :
    (observeEntries f t).Keeps D := by
  unfold observeEntries
  grind

@[grind ←]
theorem keeps_diagnosticLine (v : Value) : (diagnosticLine v).Keeps D := by
  unfold diagnosticLine
  grind

/-- What is seen of values refers to what is seen of those in them, with less fuel. -/
theorem keeps_observation (fuel : Nat) :
    (∀ v, (observeFault fuel v).Keeps D) ∧ (∀ v, (observe fuel v).Keeps D) ∧
      (∀ i, (observeFile fuel i).Keeps D) ∧ ∀ v, (observeContent fuel v).Keeps D := by
  induction fuel with
  | zero =>
    refine ⟨fun _ => ?_, fun _ => ?_, fun _ => ?_, fun _ => ?_⟩
    · unfold observeFault; grind
    · unfold observe; grind
    · unfold observeFile; grind
    · unfold observeContent; grind
  | succ fuel ih =>
    obtain ⟨hfault, hvalue, hfile, hcontent⟩ := ih
    refine ⟨fun v => ?_, fun v => ?_, fun i => ?_, fun v => ?_⟩
    · unfold observeFault
      refine keeps_bind keeps_machine fun m => keeps_bind (keeps_printed v) fun text => ?_
      dsimp only
      split <;> grind
    · unfold observe
      grind
    · unfold observeFile
      refine keeps_bind (keeps_query _) fun f => keeps_bind (hvalue _) fun _ => keeps_bind (hvalue _) fun _ => ?_
      refine keeps_bind (hvalue _) fun _ => keeps_bind (hvalue _) fun _ => keeps_bind (hvalue _) fun _ => ?_
      refine keeps_bind (keeps_filePath i) fun path => keeps_bind (hvalue path) fun _ => ?_
      refine keeps_bind (keeps_elements _) fun messages => ?_
      refine keeps_bind (keeps_each keeps_diagnosticLine _) fun _ => keeps_bind (keeps_query _) fun bags => ?_
      split <;> grind
    · unfold observeContent
      refine keeps_bind keeps_store fun s => ?_
      split <;> grind

@[grind ←]
theorem keeps_see (v : Value) : (see v).Keeps D := (keeps_observation _).2.1 v

@[grind ←]
theorem keeps_seeFault (v : Value) : (seeFault v).Keeps D := (keeps_observation _).1 v

/-! ### Values in log entries -/

@[grind ←]
theorem keeps_consoleText (v : Value) : (consoleText v).Keeps D := by
  unfold consoleText
  grind

@[grind ←]
theorem keeps_appended (fields : Table Value) (name : String) : (appended fields name).Keeps D := by
  unfold appended
  grind

@[grind ←]
theorem keeps_consoleEntry (event logger : String) (fields : Table Value) :
    (consoleEntry event logger fields).Keeps D := by
  unfold consoleEntry
  grind

@[grind ←]
theorem keeps_reportLine (fault : Nat) : (reportLine fault).Keeps D := by
  unfold reportLine
  grind

@[grind ←]
theorem keeps_errorReport (fault : Nat) (known : List Nat) (fuel : Nat) : (errorReport fault known fuel).Keeps D := by
  induction fuel generalizing fault known with
  | zero => exact keeps_reportLine fault
  | succ fuel ih =>
    unfold errorReport
    grind

@[grind ←]
theorem keeps_lineDatum (fuel : Nat) (around : List Value) (v : Value) : (lineDatum fuel around v).Keeps D := by
  induction fuel generalizing around v with
  | zero => exact keeps_fail _
  | succ fuel ih =>
    unfold lineDatum
    dsimp only
    split
    · refine keeps_bind (keeps_fail _) fun _ => keeps_bind keeps_store fun s => ?_
      split <;> grind
    · refine keeps_bind keeps_store fun s => ?_
      split <;> grind

@[grind ←]
theorem keeps_fieldData {f : Value → Work Datum} (hf : ∀ v, (f v).Keeps D) (fields : Table Value) :
    (fieldData f fields).Keeps D := by
  unfold fieldData
  grind

@[grind ←]
theorem keeps_lineData (fields : Table Value) : (lineData fields).Keeps D := keeps_fieldData (keeps_lineDatum _ _) fields

end Treeworks.Work
