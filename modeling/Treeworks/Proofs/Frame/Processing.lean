import Treeworks.Interpreter
import Treeworks.Proofs.Frame.Journal

/-! Runs of wares and calls of processors: what the library does for them besides asking for code from outside, apart
from looking after the slots of files, keeps to every discipline that is not about runs. -/
namespace Treeworks.Work
variable {α : Type} {D : Discipline}

/-! ### Files -/

/-- A new file is spare for the work that goes on with it. -/
theorem keeps_emptyFile {f : Value → Work α} (contents : Value)
    (hf : ∀ i, (f (.file i)).KeepsWith D (.file i)) :
    (make (fun s => s.emptyFile contents) >>= f).Keeps D := by
  intro σ hσ m
  refine D.of_proper fun hm => ?_
  let listed : Machine := { m with store := (m.store.addList []).2 }
  let shelved : Machine := { listed with store := (listed.store.addDict []).2 }
  have haside : Aside m shelved := (Aside.addList m []).trans (Aside.addDict listed [])
  have hm' := D.proper_of_holds (D.aside haside) hm
  let new : Carrier := ⟨contents, .null, .null, .null, .bool false, .list m.store.lists.size,
    .dict m.store.dicts.size, []⟩
  refine D.trans (D.aside (haside.trans (Aside.addFile shelved new))) ?_
  exact hf _ σ hσ { shelved with store := (shelved.store.addFile new).2 } (D.spare_file hm' new)

/-- A file that is not copied from another is made of what it is given. -/
theorem keeps_newFile {v : Value} (hv : v.isFile = false) : (newFile v).Keeps D := by
  have hplain (contents : Value) : (make (fun s => s.emptyFile contents)).Keeps D := by
    have h := keeps_emptyFile (D := D) (f := pure) contents fun i => (keeps_pure _).with
    intro σ hσ m
    exact h σ hσ m
  unfold newFile
  split
  · exact hplain _
  · exact hplain _
  · exact hplain _
  · exact hplain _
  · cases hv
  · refine keeps_bind (keeps_query _) fun entries => ?_
    split
    · exact keeps_failFor _ _
    · refine keeps_emptyFile .null fun i => keepsWith_bind (keeps_trueOr _ _) fun contents => ?_
      exact keepsWith_seq (fun _ _ m h => D.write_file h _) fun _ => (keeps_pure _).with

@[grind ←]
theorem keeps_coerceFile (v : Value) : (coerceFile v).Keeps D := by
  unfold coerceFile
  split
  · exact keeps_pure _
  · rename_i hv
    refine keeps_bind (keeps_newFile ?_) fun _ => keeps_pure _
    cases v <;> first | rfl | exact absurd rfl (hv _)

/-! ### Diagnostics -/

@[grind ←]
theorem keeps_pointText (p : Point) : (pointText p).Keeps D := by
  unfold pointText
  grind

/-- The name of a position refers to those of the positions in it. -/
theorem keeps_positionName (fuel : Nat) (v : Value) : (positionName fuel v).Keeps D := by
  induction fuel generalizing v with
  | zero => exact keeps_fail _
  | succ fuel ih =>
    unfold positionName
    split
    · exact keeps_pure _
    · refine keeps_bind keeps_store fun s => ?_
      split
      · split
        · exact ih _
        · refine keeps_bind (ih _) fun first => keeps_bind (keeps_truth _) fun ends => ?_
          split
          · exact keeps_bind (ih _) fun _ => keeps_pure _
          · exact keeps_bind (keeps_pure _) fun _ => keeps_pure _
        · exact keeps_pointText _
      · split
        · exact keeps_pointText _
        · exact keeps_bind (keeps_attrOrNull _ _) fun inner => ih inner

theorem keeps_positionStart (fuel : Nat) (v : Value) : (positionStart fuel v).Keeps D := by
  induction fuel generalizing v with
  | zero => exact keeps_fail _
  | succ fuel ih =>
    unfold positionStart
    refine keeps_bind keeps_store fun s => ?_
    split
    · exact keeps_pure _
    · exact keeps_pure _
    · exact keeps_bind (keeps_attrOrNull _ _) fun inner => ih inner
    · split
      · exact ih _
      · exact ih _
      · exact keeps_pure _

theorem keeps_newDiagnostic (reason position file fatal : Value) : (newDiagnostic reason position file fatal).Keeps D := by
  have hrest (d : Value → String → Point → Diagnostic) (said : Value) : Keeps D (do
      let name ← positionName positionDepth position
      let start ← positionStart positionDepth position
      make fun s => s.addFault (.diagnostic (d said name start)) [said] .null) :=
    keeps_bind (keeps_positionName _ _) fun name => keeps_bind (keeps_positionStart _ _) fun start =>
      keeps_makeFault _ _ _
  unfold newDiagnostic
  split
  · exact keeps_bind (keeps_printed _) fun text => keeps_bind (keeps_pure _) fun said =>
      hrest (fun said name start => ⟨said, .str name, start.line, start.column, file, fatal, reason⟩) said
  · exact keeps_bind (keeps_pure _) fun said =>
      hrest (fun said name start => ⟨said, .str name, start.line, start.column, file, fatal, .null⟩) said

theorem keeps_newMessage (file : Nat) (reason position : Value) : (newMessage file reason position).Keeps D :=
  keeps_overridden _ _ _ (keeps_bind (keeps_filePath _) fun _ => keeps_newDiagnostic _ _ _ _)

/-! ### Processors -/

@[grind ←]
theorem keeps_isNode (v : Value) : (isNode v).Keeps D := by
  unfold isNode
  grind

@[grind ←]
theorem keeps_treeAndFile (tree file : Value) : (treeAndFile tree file).Keeps D := by
  unfold treeAndFile
  grind

@[grind ←]
theorem keeps_createWorker (p : Value) (part : String) (file settings : Value) :
    (createWorker p part file settings).Keeps D := by
  unfold createWorker
  grind

@[grind ←]
theorem keeps_transformers (p : Value) : (transformers p).Keeps D := by
  unfold transformers
  grind

@[grind ←]
theorem keeps_logTransformers (p : Value) (event : String) : (logTransformers p event).Keeps D := by
  unfold logTransformers
  grind

@[grind ←]
theorem keeps_newCoroutine (stage : Stage) : (newCoroutine stage).Keeps D :=
  fun _ _ m => D.aside { Aside.refl m with }

@[grind ←]
theorem keeps_modifyLoop (f : Loop → Loop) : (modifyLoop f).Keeps D :=
  keeps_modify fun m => D.aside { Aside.refl m with }

@[grind ←]
theorem keeps_makeInLoop (f : Loop → α × Loop) : (makeInLoop f).Keeps D := fun _ _ m => D.aside { Aside.refl m with }

@[grind ←]
theorem keeps_updatePassage (c : Nat) (f : Passage → Passage) : (updatePassage c f).Keeps D :=
  keeps_modifyStore fun m => D.aside { Aside.refl m with }

@[grind ←]
theorem keeps_passage (c : Nat) : (passage c).Keeps D := by
  unfold passage
  grind

/-! ### Runs -/

@[grind ←]
theorem keeps_newCell : newCell.Keeps D := fun _ _ m => D.push_cell m

@[grind ←]
theorem keeps_futureOf (v : Value) : (futureOf v).Keeps D := by
  unfold futureOf
  grind

@[grind ←]
theorem keeps_seek (steps : Value) (index : Nat) : (seek steps index).Keeps D := by
  unfold seek
  grind

@[grind ←]
theorem keeps_logNote (note : Note) : (logNote note).Keeps D := by
  unfold logNote
  grind

@[grind ←]
theorem keeps_handlingAny (error : Option Value) {w : Work α} (hw : w.Keeps D) : (handlingAny error w).Keeps D := by
  unfold handlingAny
  grind

section
variable (hrun : ∀ (m : Machine) (r : Runner), D.holds m { m with store := { m.store with runner := r } })
include hrun

theorem keeps_react (move : Move) : (react move).Keeps D := by
  unfold react
  exact keeps_bind (keeps_make fun m => hrun m _) fun p => keeps_bind (keeps_each keeps_logNote _) fun _ => keeps_pure _

theorem keeps_answer (result : Except Value Value) : (answer result).Keeps D := by
  have hreact := keeps_react hrun
  unfold answer
  split
  · exact keeps_bind (keeps_isAwaitable _) fun b => hreact _
  · exact keeps_handling _ (keeps_bind (keeps_isOrdinary _) fun b => hreact _)

theorem keeps_settle (awaitable : Value) : (settle awaitable).Keeps D := by
  unfold settle
  refine keeps_bind (keeps_inspect _) fun running => ?_
  split
  · refine keeps_bind (keeps_futureOf _) fun future => keeps_bind (keeps_query _) fun ticket => ?_
    refine keeps_bind keeps_newCell fun cell => keeps_bind (keeps_modifyLoop _) fun _ => ?_
    exact keeps_bind (keeps_react hrun _) fun _ => keeps_pure _
  · refine keeps_bind (keeps_newCoroutine _) fun co => ?_
    refine keeps_bind (keeps_attempt (keeps_conclude _)) fun result => ?_
    exact keeps_bind (keeps_answer hrun _) fun _ => keeps_pure _

theorem keeps_follow (fuel : Nat) (handled : Option Value) (d : Directive) : (follow fuel handled d).Keeps D := by
  induction fuel generalizing handled d with
  | zero => exact keeps_exhausted
  | succ fuel ih =>
    have hanswer (handled : Option Value) (result : Except Value Value) :
        (do follow fuel handled (← answer result)).Keeps D :=
      keeps_bind (keeps_answer hrun _) fun _ => ih _ _
    unfold follow
    cases d with
    | leave => exact keeps_pure _
    | fail e => exact keeps_reraise e
    | seek steps index =>
      refine keeps_bind (keeps_attempt (keeps_seek _ _)) fun found => ?_
      cases found with
      | ok found => exact keeps_bind (keeps_react hrun _) fun _ => ih _ _
      | error e => exact hanswer _ _
    | invoke step args context => exact keeps_bind (keeps_attempt (keeps_call _ _ _)) fun result => hanswer _ _
    | call done args =>
      exact keeps_bind (keeps_attempt (keeps_handlingAny _ (keeps_call _ _ _))) fun result => hanswer _ _
    | await v => exact keeps_bind (keeps_settle hrun v) fun next => ih _ _

theorem keeps_runWare (ware : Nat) (args : List Value) : (runWare ware args).Keeps D := by
  have hreact := keeps_react hrun
  have hfollow := keeps_follow hrun
  unfold runWare
  grind

end

end Treeworks.Work
