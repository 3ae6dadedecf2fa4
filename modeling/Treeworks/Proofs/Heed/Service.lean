import Treeworks.Interpreter
import Treeworks.Proofs.Heed.Working

/-! Requests: calls of processors, bodies of functions, coroutines and the event loop. What the library does for them
heeds a frame if runs of wares and timed steps do; bodies, and the default of a family, heed those that ask nothing of
the classes. The loop, and with it the service for any nesting of requests, heeds the frames that ask nothing of lines
of control either. -/
namespace Treeworks

/-- Whether runs of wares, the continuations of their steps, and compiling, which is a timed step, heed a frame. -/
class Frame.Runs (F : Frame) : Prop where
  runWare : ∀ ware args, (Work.runWare ware args).Heeds F
  callNext : ∀ ticket error, (Work.callNext ticket error).Heeds F
  stringify : ∀ p tree file settings, (Work.stringify p tree file settings).Heeds F

/-- Whether timed steps that stay open, and coroutines that go on, heed a frame besides. -/
class Frame.Opens (F : Frame) : Prop extends Frame.Runs F where
  openStep : ∀ event logStart level values, (Work.openStep event logStart level values).Heeds F
  closeStep : ∀ {α : Type} step (result : Except Value α), (Work.closeStep step result).Heeds F
  resume : ∀ coroutine error, Work.Heeds (α := Pause) F (Work.serve (.resume coroutine error))

namespace Work
variable {α : Type} {F : Frame}

/-! ### Processors -/

@[grind ←]
theorem heeds_familyOf (v : Value) : (familyOf v).Heeds F := by
  unfold familyOf
  grind

theorem heeds_defaultProcessor [F.Lax] (family : Nat) : (defaultProcessor family).Heeds F := by
  have hset := heeds_setAttribute (Frame.Lax.stores (F := F) (.type family) "_default")
  unfold defaultProcessor
  grind

@[grind ←]
theorem heeds_ensureProcessor (family : Nat) (v : Value) : (ensureProcessor family v).Heeds F := by
  unfold ensureProcessor
  grind

@[grind ←]
theorem heeds_transformers (p : Value) : (transformers p).Heeds F := by
  unfold transformers
  grind

@[grind ←]
theorem heeds_logTransformers (p : Value) (event : String) : (logTransformers p event).Heeds F := by
  unfold logTransformers
  grind

@[grind ←]
theorem heeds_extendProcessor (p : Value) (method : String) (args : List Value) :
    (extendProcessor p method args).Heeds F := by
  unfold extendProcessor
  grind

@[grind ←]
theorem heeds_createWorker (p : Value) (part : String) (file settings : Value) :
    (createWorker p part file settings).Heeds F := by
  unfold createWorker
  grind

@[grind ←]
theorem heeds_isNode (v : Value) : (isNode v).Heeds F := by
  unfold isNode
  grind

@[grind ←]
theorem heeds_treeAndFile (tree file : Value) : (treeAndFile tree file).Heeds F := by
  unfold treeAndFile
  grind

@[grind ←]
theorem heeds_resolveTree (name tree : Value) (file : Nat) : (resolveTree name tree file).Heeds F := by
  unfold resolveTree
  grind

@[grind ←]
theorem heeds_runProcessor (p tree file done : Value) : (runProcessor p tree file done).Heeds F := by
  unfold runProcessor
  refine heeds_bind (heeds_isCallable _) fun isDone => heeds_bind (heeds_treeAndFile _ _) fun given => ?_
  refine heeds_bind (heeds_coerceFile _) fun file => heeds_bind (heeds_attr _ _) fun name => ?_
  refine heeds_bind (heeds_resolveTree _ _ _) fun tree => heeds_bind (heeds_isCallable _) fun isDone' => ?_
  refine heeds_bind (heeds_logTransformers _ _) fun _ => heeds_bind (heeds_attr _ _) fun ware => ?_
  refine heeds_bind (heeds_size ware) fun n => ?_
  dsimp only
  split
  · exact heeds_bind (heeds_call _ _ _) fun _ => heeds_pure _
  · exact heeds_bind (heeds_attr _ _) fun ware => heeds_bind (heeds_callMethod _ _ _) fun _ => heeds_pure _

@[grind ←]
theorem heeds_ran [F.Runs] (ware : Nat) (args : List Value) : (runWare ware args).Heeds F := Frame.Runs.runWare ware args

@[grind ←]
theorem heeds_continued [F.Runs] (ticket : Nat) (error : Value) : (callNext ticket error).Heeds F :=
  Frame.Runs.callNext ticket error

@[grind ←]
theorem heeds_compiled [F.Runs] (p tree file settings : Value) : (stringify p tree file settings).Heeds F :=
  Frame.Runs.stringify p tree file settings

@[grind ←]
theorem heeds_opened [F.Opens] (event logStart level : Value) (values : Table Value) :
    (openStep event logStart level values).Heeds F := Frame.Opens.openStep event logStart level values

@[grind ←]
theorem heeds_closed [F.Opens] (step : OpenStep) (result : Except Value α) : (closeStep step result).Heeds F :=
  Frame.Opens.closeStep step result

@[grind ←]
theorem heeds_resumed [F.Opens] (coroutine : Nat) (error : Option Value) :
    Heeds (α := Pause) F (serve (.resume coroutine error)) := Frame.Opens.resume coroutine error

theorem heeds_stringify [F.Free] (p tree file settings : Value) : (stringify p tree file settings).Heeds F := by
  unfold stringify
  refine heeds_bind (heeds_treeAndFile _ _) fun given => heeds_bind (heeds_coerceFile _) fun file => ?_
  refine heeds_bind (heeds_attr _ _) fun name => heeds_bind (heeds_resolveTree _ _ _) fun tree => ?_
  refine heeds_bind (heeds_attr _ _) fun name => heeds_bind (heeds_filePath? _) fun path => ?_
  grind

instance [F.Free] : F.Opens where
  runWare := heeds_runWare
  callNext := heeds_callNext
  stringify := heeds_stringify
  openStep := heeds_openStep
  closeStep := heeds_closeStep
  resume := heeds_resume

@[grind ←]
theorem heeds_processorMethod [F.Runs] (method : String) (p : Value) (args : List Value) :
    (processorMethod method p args).Heeds F := by
  unfold processorMethod
  grind

theorem heeds_familyMethod [F.Runs] (hdefault : ∀ family, (defaultProcessor family).Heeds F) (method : String)
    (receiver : Value) (args : List Value) : (familyMethod method receiver args).Heeds F := by
  unfold familyMethod
  grind

/-! ### Making instances -/

@[grind ←]
theorem heeds_nameParts (type : Nat) : (nameParts type).Heeds F := by
  unfold nameParts
  refine heeds_bind heeds_store fun s => heeds_bind (heeds_each (fun e => ?_) _) fun _ => heeds_pure _
  refine heeds_bind (heeds_special _ _) fun m => ?_
  split <;> grind

@[grind ←]
theorem heeds_introduce (type : Nat) : (introduce type).Heeds F := by
  unfold introduce
  grind

@[grind ←]
theorem heeds_deriveType (base : Nat) : (deriveType base).Heeds F := by
  have hderive (documented : Bool) : (make fun s => s.derive base documented).Heeds F :=
    heeds_of_holds (fun _ _ _ => rfl) fun _ m => F.derived m base documented
  refine heeds_bind heeds_store fun s => heeds_bind (heeds_truth _) fun documented => ?_
  exact heeds_bind (hderive documented) fun i => heeds_bind (heeds_introduce i) fun _ => heeds_pure i

@[grind ←]
theorem heeds_deriveFor (base : Value) : (deriveFor base).Heeds F := by
  unfold deriveFor
  grind

@[grind ←]
theorem heeds_boundArguments (callee : String) (signature : Signature) (args : List Value) (keywords : Table Value) :
    (boundArguments callee signature args keywords).Heeds F := by
  unfold boundArguments
  grind

@[grind ←]
theorem heeds_prepareProcessor (p : Value) (args : List Value) (keywords : Table Value) :
    (prepareProcessor p args keywords).Heeds F := by
  have hset {name : String} (h : name.toList.head? ≠ some '_') := heeds_setAttribute (F.stores_public p h)
  have hdata (family data : Value) : (do
      if data ≠ .null then setAttribute p "data" (← deepCopy data)
      log "unified.processor" .debug "processor.created" [("processor", ← attr family "name")] : Work Unit).Heeds F := by
    have hlog := heeds_bind (F := F) (heeds_attr family "name") fun name =>
      heeds_log "unified.processor" .debug "processor.created" [("processor", name)]
    dsimp only
    split
    · exact heeds_bind (heeds_deepCopy _) fun _ => heeds_bind (hset (by decide) _) fun _ => hlog
    · exact hlog
  unfold prepareProcessor
  refine heeds_bind (heeds_boundArguments _ _ _ _) fun given => ?_
  split
  · exact heeds_pure _
  · refine heeds_bind (heeds_familyOf p) fun family => heeds_bind (heeds_newList _) fun attachers => ?_
    refine heeds_bind (heeds_make fun s => s.settled_addEmptyWare _ _) fun ware => ?_
    refine heeds_bind (hset (by decide) _) fun _ => heeds_bind (heeds_attr _ _) fun parser => ?_
    refine heeds_bind (heeds_deriveFor _) fun parser => heeds_bind (hset (by decide) _) fun _ => ?_
    refine heeds_bind (heeds_attr _ _) fun compiler => heeds_bind (heeds_deriveFor _) fun compiler => ?_
    refine heeds_bind (hset (by decide) _) fun _ => ?_
    exact heeds_bind (heeds_attr _ _) fun data => hdata _ data

@[grind ←]
theorem heeds_prepareWorker (spec : WorkerSpec) (worker : Value) (args : List Value) (keywords : Table Value) :
    (prepareWorker spec worker args keywords).Heeds F := by
  have hset {name : String} (h : name.toList.head? ≠ some '_') := heeds_setAttribute (F.stores_public worker h)
  unfold prepareWorker
  refine heeds_bind (heeds_boundArguments _ _ _ _) fun given => heeds_bind (heeds_see _) fun _ => ?_
  refine heeds_bind (heeds_see _) fun _ => heeds_bind (heeds_see _) fun _ => heeds_bind (heeds_record _) fun _ => ?_
  split
  · exact heeds_bind (heeds_lookup _ _) fun _ => heeds_raiseValue _
  · refine heeds_bind (hset (by decide) _) fun _ => heeds_bind (hset (by decide) _) fun _ => ?_
    exact hset (by decide) _

@[grind ←]
theorem heeds_newInstance (type : Nat) : (newInstance type).Heeds F := heeds_make fun s => s.settled_addInstance type

@[grind ←]
theorem heeds_allocate (type : Nat) (args : List Value) (keywords : Table Value) :
    (allocate type args keywords).Heeds F := by
  unfold allocate
  grind

@[grind ←]
theorem heeds_prepare (v : Value) (args : List Value) (keywords : Table Value) : (prepare v args keywords).Heeds F := by
  unfold prepare
  grind

@[grind ←]
theorem heeds_instantiate (type : Nat) (args : List Value) (keywords : Table Value) :
    (instantiate type args keywords).Heeds F := by
  unfold instantiate
  grind

/-! ### Bodies -/

@[grind ←]
theorem heeds_report (how : Reporting) (file : Nat) (reason position : Value) :
    (report how file reason position).Heeds F := by
  unfold report
  split
  · exact heeds_newMessage _ _ _
  · exact heeds_recordMessage _ _ _ _
  · refine heeds_bind (heeds_recordMessage _ _ _ _) fun message => heeds_bind (heeds_attr _ _) fun path => ?_
    refine heeds_bind (heeds_trueOr _ _) fun path => heeds_bind (heeds_attr _ _) fun reason => ?_
    refine heeds_bind (heeds_attr _ _) fun name => heeds_bind (heeds_log _ _ _ _) fun _ => ?_
    refine heeds_bind (heeds_query _) fun f => heeds_bind (heeds_truth _) fun quiet => ?_
    split <;> grind

@[grind ←]
theorem heeds_reportBy (how : Reporting) (file : Nat) (args : List Value) : (reportBy how file args).Heeds F := by
  unfold reportBy
  grind

@[grind ←]
theorem heeds_fileMethod (file : Nat) (name : String) (args : List Value) : (fileMethod file name args).Heeds F := by
  unfold fileMethod
  grind

@[grind ←]
theorem heeds_act [F.Lax] (locals : Table Value) (a : Act) : (act locals a).Heeds F := by
  unfold act
  split
  case h_9 =>
    refine heeds_bind (heeds_lookup _ _) fun file => heeds_bind (heeds_evaluate _ _) fun reason => ?_
    refine heeds_bind (heeds_evaluate _ _) fun position => heeds_bind (heeds_callMethod _ _ _) fun v => ?_
    split <;> grind
  case h_7 =>
    refine heeds_bind (heeds_lookup _ _) fun f => heeds_bind (heeds_evaluateAll _ _) fun args => ?_
    exact heeds_bind (heeds_call _ _ _) fun _ => heeds_pure _
  case h_10 =>
    refine heeds_bind (heeds_lookup _ _) fun v => heeds_bind (heeds_evaluate _ _) fun step => ?_
    exact heeds_bind (heeds_evaluateAll _ _) fun args => heeds_bind (heeds_callMethod _ _ _) fun _ => heeds_pure _
  all_goals grind

@[grind ←]
theorem heeds_actAll [F.Lax] (locals : Table Value) (acts : List Act) : (actAll locals acts).Heeds F := by
  fun_induction actAll locals acts <;> grind

@[grind ←]
theorem heeds_workerLocals (worker : Value) : (workerLocals worker).Heeds F := by
  unfold workerLocals
  grind

@[grind ←]
theorem heeds_recordWork (parses : Bool) (spec : WorkerSpec) : (recordWork parses spec).Heeds F := heeds_record _

@[grind ←]
theorem heeds_doWork [F.Lax] (worker : Value) (type : Nat) : (doWork worker type).Heeds F := by
  unfold doWork
  refine heeds_bind (heeds_query _) fun t => ?_
  split
  · split
    · exact heeds_newCoroutine _
    · refine heeds_bind (heeds_recordWork _ _) fun _ => heeds_bind (heeds_workerLocals _) fun locals => ?_
      refine heeds_bind (heeds_actAll _ _) fun found => ?_
      split <;> grind
  · exact heeds_pure _

/-! ### Coroutines -/

@[grind ←]
theorem heeds_updateCoroutine [F.Free] (i : Nat) (f : Coroutine → Coroutine) : (updateCoroutine i f).Heeds F :=
  heeds_free fun _ => ⟨rfl, rfl⟩

@[grind ←]
theorem heeds_cancellation : cancellation.Heeds F := heeds_make fun s => s.settled_addFault _ _ _

@[grind ←]
theorem heeds_isCancellation (e : Value) : (isCancellation e).Heeds F := by
  unfold isCancellation
  grind

@[grind ←]
theorem heeds_futureResult (f : Future) : (futureResult f).Heeds F := by
  unfold futureResult
  grind

@[grind ←]
theorem heeds_updatePassage (c : Nat) (f : Passage → Passage) : (updatePassage c f).Heeds F :=
  heeds_modifyStore fun _ => ⟨rfl, Nat.le_refl _, .of_eq rfl⟩

@[grind ←]
theorem heeds_passage (c : Nat) : (passage c).Heeds F := by
  unfold passage
  grind

@[grind ←]
theorem heeds_finishParse [F.Opens] (p : Value) (file : Nat) (step : OpenStep) (arrived : Except Value Value) :
    (finishParse p file step arrived).Heeds F := by
  unfold finishParse
  grind

@[grind ←]
theorem heeds_beginParse [F.Opens] (p value settings : Value) : (beginParse p value settings).Heeds F := by
  unfold beginParse
  refine heeds_bind (heeds_coerceFile _) fun file => heeds_bind (heeds_attr _ _) fun name => ?_
  refine heeds_bind (heeds_filePath? _) fun path => heeds_bind (heeds_opened _ _ _ _) fun step => ?_
  refine heeds_bind (heeds_attempt ?_) fun parsed => ?_
  · exact heeds_bind (heeds_callMethod _ _ _) fun parser => heeds_callMethod _ _ _
  · split <;> grind

@[grind ←]
theorem heeds_beginProcess [F.Opens] (p value settings : Value) : (beginProcess p value settings).Heeds F := by
  unfold beginProcess
  refine heeds_bind (heeds_truth _) fun given => ?_
  extract_lets withSettings
  have hsettings (settings : Value) : (withSettings settings).Heeds F := by
    unfold withSettings
    extract_lets withFile
    have hfile (file : Value) : (withFile file).Heeds F := by
      refine heeds_bind (heeds_make fun _ => ⟨rfl, Nat.le_refl _, .of_eq rfl⟩) fun c => ?_
      refine heeds_bind (heeds_makeInLoop Loop.calm_newFuture) fun finished => heeds_bind (heeds_attr _ _) fun name => ?_
      refine heeds_bind (heeds_filePath? _) fun path => heeds_bind (heeds_opened _ _ _ _) fun step => ?_
      refine heeds_bind (heeds_attempt (heeds_ran _ _)) fun ran => ?_
      split <;> grind
    split
    · exact heeds_bind (heeds_pure _) hfile
    · exact heeds_bind (heeds_newFile _) hfile
  split
  · exact heeds_bind (heeds_pure _) hsettings
  · exact heeds_bind (heeds_newDict _) hsettings

@[grind ←]
theorem heeds_observeReport (report : Report) (v : Value) : (observeReport report v).Heeds F := by
  unfold observeReport
  split
  · exact heeds_see v
  · refine heeds_bind (heeds_isRegistered v) fun known => ?_
    split <;> grind
  · refine heeds_bind (heeds_passage _) fun p => heeds_bind (heeds_isRegistered _) fun known => ?_
    dsimp only
    split
    · split <;> grind
    · grind

@[grind ←]
theorem heeds_recordEnd (task : Nat) (name : Option String) (report : Report) : (recordEnd task name report).Heeds F := by
  unfold recordEnd
  grind

@[grind ←]
theorem heeds_recordCall (name : String) (locals : Table Value) : (recordCall name locals).Heeds F := by
  unfold recordCall
  grind

@[grind ←]
theorem heeds_awaitBy (v : Value) : (awaitBy v).Heeds F := by
  unfold awaitBy
  grind

@[grind ←]
theorem heeds_drawNext (source : Value) (index : Nat) : (drawNext? source index).Heeds F := by
  unfold drawNext?
  grind

@[grind ←]
theorem heeds_sourceOf (v : Value) : (sourceOf v).Heeds F := by
  unfold sourceOf
  grind

@[grind ←]
theorem heeds_advance [F.Lax] [F.Opens] (stage : Stage) (arrived : Except Value Value) : (advance stage arrived).Heeds F := by
  fun_induction advance stage arrived
  case case16 arrived source index next herror hnull =>
    refine heeds_bind (heeds_attempt (heeds_bind (heeds_release _) fun _ => heeds_drawNext _ _)) fun drawn => ?_
    split
    · exact herror _
    · exact hnull
    · exact heeds_pure _
    · exact heeds_pure _
  case case17 arrived next herror =>
    refine heeds_bind (heeds_attempt (heeds_bind (heeds_release _) fun _ => heeds_fail _)) fun drawn => ?_
    split
    · exact herror _
    · exact heeds_pure _
  all_goals grind

@[grind ←]
theorem heeds_resumeInner [F.Opens] (j : Nat) (fresh : Bool) (error : Option Value) : (resumeInner j fresh error).Heeds F := by
  unfold resumeInner
  grind

@[grind ←]
theorem heeds_iteratorBy (v : Value) : (iteratorBy v).Heeds F := by
  unfold iteratorBy
  grind

/-- A kind of stages that coroutines do not leave, and in which they heed a frame. -/
structure Heeding (F : Frame) (P : Stage → Prop) : Prop where
  heeds : ∀ {stage}, P stage → ∀ arrived, (advance stage arrived).Heeds F
  within : ∀ {stage}, P stage → ∀ arrived, (advance stage arrived).Yields (Advance.Within P)
  draw : ∀ {next}, P next → ∀ source index, P (.draw source index next)

/-- Every stage heeds a frame that asks nothing of the classes. -/
theorem heeding_lax [F.Lax] [F.Opens] : Heeding F fun _ => True where
  heeds _ arrived := heeds_advance _ arrived
  within _ _ := by
    intro _ _ a _ _
    cases a <;> trivial
  draw _ _ _ := trivial

section
variable {P : Stage → Prop} [F.Opens] (hP : Heeding F P) {i : Nat} (hi : ∀ f, (updateCoroutine i f).Heeds F)
include hP hi

/-- To go on with a coroutine, and into one that it awaits, refers to both with less fuel. -/
theorem heeds_going (fuel : Nat) : (∀ stage arrived, P stage → (goOn fuel i stage arrived).Heeds F) ∧
    ∀ j fresh error next, P next → (goInto fuel i j fresh error next).Heeds F := by
  have hsuspend (stage : Stage) (inner : Option Value) : (suspend i stage inner).Heeds F := hi _
  have hend : (endCoroutine i).Heeds F := hi _
  induction fuel with
  | zero => exact ⟨fun _ _ _ => heeds_exhausted, fun _ _ _ _ _ => heeds_exhausted⟩
  | succ fuel ih =>
    obtain ⟨hon, hinto⟩ := ih
    refine ⟨fun stage arrived hstage => ?_, fun j fresh error next hnext => ?_⟩
    · have hresult := yields_attempt (hP.within hstage arrived)
      unfold goOn
      refine heeds_bind_of (heeds_attempt (hP.heeds hstage _)) (fun σ _ m a ha => hresult σ m a _ (Prod.ext ha rfl))
        fun result hresult => ?_
      split
      · grind
      · grind
      · grind
      · exact hon _ _ (hresult _ rfl)
      · rename_i awaited next
        have hnext : P next := hresult _ rfl
        split
        · grind
        · exact hinto _ _ _ _ hnext
        · exact hinto _ _ _ _ hnext
        · refine heeds_bind (heeds_attempt (heeds_iteratorBy _)) fun iterator => ?_
          split
          · exact hon _ _ (hP.draw hnext _ _)
          · exact hon _ _ hnext
    · unfold goInto
      grind

/-- To resume a coroutine that stands in such a stage is to do work that heeds the frame. -/
theorem exists_heeds_resumed {m : Machine} (hstage : P (m.coroutine i).stage) (error : Option Value) :
    ∃ w : Work Pause, w.Heeds F ∧ ∀ σ, resumeCoroutine i error σ m = w σ m := by
  have hon := fun arrived => (heeds_going hP hi rounds).1 (m.coroutine i).stage arrived hstage
  have hinto := fun j => (heeds_going hP hi rounds).2 j false error (m.coroutine i).stage hstage
  refine ⟨_, ?_, fun σ => bind_inspect _ _ σ m⟩
  cases (m.coroutine i).progress with
  | ended => exact heeds_fail _
  | running => exact heeds_fail _
  | fresh =>
    refine heeds_bind (hi _) fun _ => ?_
    cases error with
    | some e => exact heeds_bind (hi _) fun _ => heeds_reraise _
    | none => exact hon _
  | suspended =>
    refine heeds_bind (hi _) fun _ => ?_
    split
    · refine heeds_bind (heeds_inspect _) fun future => ?_
      split
      · exact heeds_bind (heeds_futureResult _) fun _ => hon _
      · exact heeds_bind (hi _) fun _ => heeds_pure _
    · exact hinto _
    · exact hon _

end

@[grind ←]
theorem heeds_resumeCoroutine [F.Lax] [F.Free] (i : Nat) (error : Option Value) : (resumeCoroutine i error).Heeds F := by
  have hwork (m : Machine) : ∃ w : Work Pause, w.Heeds F ∧ ∀ σ, resumeCoroutine i error σ m = w σ m :=
    exists_heeds_resumed heeding_lax (heeds_updateCoroutine i) trivial error
  refine ⟨fun hσ m hm hcounts => ?_, fun hσ m hm hagree => ?_⟩ <;> obtain ⟨w, hw, heq⟩ := hwork m
  · rw [heq] at hcounts ⊢
    exact hw.ends hσ hm hcounts
  · rw [heq, heq]
    exact hw.relies hσ hm hagree

/-! ### The event loop -/

@[grind ←]
theorem heeds_inCell [F.Free] (cell : Nat) {w : Work α} (hw : w.Heeds F) : (inCell cell w).Heeds F := by
  refine heeds_bind (heeds_inspect _) fun outer => heeds_bind (heeds_free fun _ => ⟨rfl, rfl⟩) fun _ => ?_
  refine heeds_bind (heeds_attempt hw) fun result => ?_
  exact heeds_bind (heeds_free fun _ => ⟨rfl, rfl⟩) fun _ => heeds_pure _

@[grind ←]
theorem heeds_dueError (due : Bool) (error : Option Value) : (dueError due error).Heeds F := by
  unfold dueError
  grind

@[grind ←]
theorem heeds_advanceTask [F.Free] (t : Nat) (error : Option Value) : (advanceTask t error).Heeds F := by
  have hwaits (f : Nat) (task : Task) : (do
      modifyLoop fun l =>
        (l.watch f ⟨.wake t f, task.cell⟩).updateTask t fun task => { task with waiting := some f }
      if ((← inspect (·.loop.future t)).task.map (·.cancelDue)).getD false then
        let cancelled ← makeInLoop fun l => l.cancel f
        if cancelled then
          modifyLoop fun l => l.updateTask t fun task => { task with cancelDue := false } : Work Unit).Heeds F := by
    refine heeds_bind (heeds_changeLoop _) fun _ => heeds_bind (heeds_inspect _) fun f => ?_
    split <;> grind
  unfold advanceTask
  refine heeds_bind (heeds_inspect _) fun done => ?_
  split
  · exact heeds_pure _
  · refine heeds_bind (heeds_inspect _) fun f => ?_
    split
    · exact heeds_pure _
    · refine heeds_bind (heeds_dueError _ _) fun error => heeds_bind (heeds_changeLoop _) fun _ => ?_
      refine heeds_bind (heeds_attempt (heeds_resume _ _)) fun result => ?_
      split
      case h_4 => exact hwaits _ _
      all_goals grind

@[grind ←]
theorem heeds_wakeTask [F.Free] (t f : Nat) : (wakeTask t f).Heeds F := by
  refine heeds_bind (heeds_inspect _) fun future => heeds_bind (heeds_futureResult _) fun result => ?_
  cases result with
  | ok _ => exact heeds_advanceTask t none
  | error e => exact heeds_advanceTask t (some e)

@[grind ←]
theorem heeds_runCallback [F.Free] (c : Callback) : (runCallback c).Heeds F := by
  cases c with
  | advance t error => exact heeds_advanceTask t error
  | wake t f => exact heeds_wakeTask t f
  | settled ticket f => exact heeds_notifySettled ticket f
  | told task name report => exact heeds_recordEnd task name report
  | stop => exact heeds_changeLoop fun l => { l with stopping := true }
  | collected =>
    unfold runCallback
    exact heeds_changeLoop _

@[grind ←]
theorem heeds_runHandle [F.Free] (h : Handle) : (runHandle h).Heeds F := by
  refine heeds_bind (heeds_inCell _ (heeds_runCallback _)) fun result => ?_
  cases result with
  | ok _ => exact heeds_pure _
  | error e => exact heeds_reportUnhandled _ _

@[grind ←]
theorem heeds_runReady [F.Free] (n : Nat) : (runReady n).Heeds F := by
  induction n with
  | zero => exact heeds_pure _
  | succ n ih =>
    refine heeds_bind (heeds_inspect _) fun ready => ?_
    cases ready with
    | nil => exact heeds_pure _
    | cons h rest => exact heeds_bind (heeds_changeLoop _) fun _ => heeds_bind (heeds_runHandle h) fun _ => ih

@[grind ←]
theorem heeds_turn [F.Free] : turn.Heeds F := heeds_bind (heeds_inspect _) fun n => heeds_runReady n

@[grind ←]
theorem heeds_drain [F.Free] (fuel : Nat) : (drain fuel).Heeds F := by
  induction fuel with
  | zero => exact heeds_exhausted
  | succ fuel ih =>
    refine heeds_bind (heeds_inspect _) fun done => ?_
    split
    · exact heeds_pure _
    · exact heeds_bind heeds_turn fun _ => ih

@[grind ←]
theorem heeds_runUntilStopped [F.Free] (fuel : Nat) : (runUntilStopped fuel).Heeds F := by
  induction fuel with
  | zero => exact heeds_exhausted
  | succ fuel ih =>
    refine heeds_bind heeds_turn fun _ => heeds_bind (heeds_inspect _) fun stopping => ?_
    split
    · exact heeds_changeLoop _
    · refine heeds_bind (heeds_inspect _) fun idle => ?_
      split
      · exact heeds_exhausted
      · exact ih

@[grind ←]
theorem heeds_closeLoop [F.Free] (first : Nat) : (closeLoop first).Heeds F := by
  unfold closeLoop
  refine heeds_bind (heeds_inspect _) fun tasks => ?_
  extract_lets tasks ending
  have hending (u : Unit) : (ending u).Heeds F := by
    refine heeds_bind heeds_turn fun _ => heeds_bind heeds_turn fun _ => heeds_bind heeds_turn fun _ => ?_
    exact heeds_bind heeds_turn fun _ => heeds_changeLoop _
  split
  · refine heeds_bind (heeds_each (fun t => heeds_putInLoop _) _) fun _ => ?_
    refine heeds_bind (heeds_each (fun t => heeds_changeLoop _) _) fun _ => heeds_bind (heeds_changeLoop _) fun _ => ?_
    refine heeds_bind (heeds_runUntilStopped _) fun _ => heeds_bind (heeds_each (fun t => ?_) _) fun _ => hending ()
    refine heeds_bind (heeds_inspect _) fun f => ?_
    split <;> grind
  · exact hending ()

@[grind ←]
theorem heeds_concludeNow [F.Free] (coroutine : Nat) : (conclude coroutine).Heeds F := by
  unfold conclude
  refine heeds_bind (heeds_inspect _) fun first => heeds_bind (heeds_changeLoop _) fun _ => ?_
  refine heeds_bind heeds_newCell fun cell => heeds_bind (heeds_putInLoop _) fun t => ?_
  refine heeds_bind (heeds_changeLoop _) fun _ => heeds_bind (heeds_runUntilStopped _) fun _ => ?_
  refine heeds_bind (heeds_closeLoop _) fun _ => heeds_bind (heeds_inspect _) fun f => ?_
  exact heeds_bind (heeds_futureResult f) heeds_release

/-! ### Calls -/

@[grind ←]
theorem heeds_boundValue (b : Bound Value) : (boundValue b).Heeds F := by
  unfold boundValue
  grind

@[grind ←]
theorem heeds_callScript [F.Lax] (name : String) (signature : Signature) (asynchronous quiet : Bool) (body : List Act)
    (args : List Value) (keywords : Table Value) :
    (callScript name signature asynchronous quiet body args keywords).Heeds F := by
  unfold callScript
  grind

@[grind ←]
theorem heeds_callCallback [F.Lax] (name : String) (body : List Act) (args : List Value) :
    (callCallback name body args).Heeds F := by
  unfold callCallback
  grind

@[grind ←]
theorem heeds_parseStage (c : Nat) : (parseStage c).Heeds F := by
  unfold parseStage
  grind

@[grind ←]
theorem heeds_compileStage (c : Nat) : (compileStage c).Heeds F := by
  unfold compileStage
  grind

@[grind ←]
theorem heeds_finishPassage (c future : Nat) (error : Value) : (finishPassage c future error).Heeds F := by
  unfold finishPassage
  grind

@[grind ←]
theorem heeds_callHook (h : Hook) (args : List Value) (keywords : Table Value) : (callHook h args keywords).Heeds F := by
  unfold callHook
  grind

@[grind ←]
theorem heeds_callInstance (v : Value) (args : List Value) (keywords : Table Value) :
    (callInstance v args keywords).Heeds F := by
  unfold callInstance
  grind

@[grind ←]
theorem heeds_withFixed (fixed : Value) (keywords : Table Value) : (withFixed fixed keywords).Heeds F := by
  unfold withFixed
  grind

theorem heeds_callNow [F.Lax] [F.Runs] (callee : Value) (args : List Value) (keywords : Table Value) :
    (call callee args keywords).Heeds F := by
  unfold call
  split <;> grind

/-! ### Attachers and methods -/

@[grind ←]
theorem heeds_attachItems (ware : Nat) (options : List Value) (v : Value) (fuel i : Nat) :
    (attachItems ware options v fuel i).Heeds F := by
  induction fuel generalizing i with
  | zero => exact heeds_exhausted
  | succ fuel ih =>
    unfold attachItems
    grind

@[grind ←]
theorem heeds_attachElements (ware : Nat) (options : List Value) (v : Value) (size : Nat) (items : List Value) :
    (attachElements ware options v size items).Heeds F := by
  induction items with
  | nil => exact heeds_pure _
  | cons item rest ih =>
    unfold attachElements
    grind

@[grind ←]
theorem heeds_attachFuture (i : Nat) : (attachFuture i).Heeds F := by
  unfold attachFuture
  grind

@[grind ←]
theorem heeds_attachRemaining (ware : Nat) (options : List Value) (m : Value × List Value) (fuel : Nat) :
    (attachRemaining ware options m fuel).Heeds F := by
  induction fuel with
  | zero => exact heeds_exhausted
  | succ fuel ih =>
    unfold attachRemaining
    grind

@[grind ←]
theorem heeds_attachFrom (ware : Nat) (options : List Value) (m : Value × List Value) (i fuel : Nat) :
    (attachFrom ware options m i fuel).Heeds F := by
  induction fuel generalizing i with
  | zero => exact heeds_exhausted
  | succ fuel ih =>
    unfold attachFrom
    grind

@[grind ←]
theorem heeds_attachBy (ware : Nat) (options : List Value) (v : Value) : (attachBy ware options v).Heeds F := by
  unfold attachBy
  grind

theorem heeds_attachNow (ware : Nat) (attacher : Value) (options : List Value) :
    (attach ware attacher options).Heeds F := by
  unfold attach
  grind

@[grind ←]
theorem heeds_wareMethod [F.Runs] (ware : Nat) (name : String) (args : List Value) : (wareMethod ware name args).Heeds F := by
  unfold wareMethod
  grind

@[grind ←]
theorem heeds_inbornMethod [F.Lax] [F.Runs] (type : Nat) (name : String) (receiver : Value) (args : List Value) :
    (inbornMethod type name receiver args).Heeds F := by
  have hfamily := heeds_familyMethod (F := F) heeds_defaultProcessor
  unfold inbornMethod
  grind

theorem heeds_invokeNow [F.Lax] [F.Runs] (method : Method) (args : List Value) : (invoke method args).Heeds F := by
  unfold invoke
  grind

end Work

open Work in
theorem Request.heeds_handle {F : Frame} [F.Lax] [F.Free] : (r : Request) → r.handle.Heeds F
  | .call callee args keywords => heeds_callNow callee args keywords
  | .invoke method args => heeds_invokeNow method args
  | .resume coroutine error => heeds_resumeCoroutine coroutine error
  | .attach ware attacher options => heeds_attachNow ware attacher options
  | .conclude coroutine => heeds_concludeNow coroutine

/-- Whatever is asked for, through whatever code of a script it goes, loggers are used and no more. -/
theorem heeds_service (depth : Nat) (r : Request) (m : Machine) :
    m.logging.Used (service depth r m).2.logging := by
  induction depth generalizing r m with
  | zero => exact (Work.heeds_fail (F := .logging) _).used (σ := .idle) (fun _ m => .refl _) m
  | succ depth ih => exact (r.heeds_handle (F := .logging)).used ih m

end Treeworks
