import Treeworks.Following
import Treeworks.Product
import Treeworks.Proofs.Heed.Entries

/-! Runs of wares, the evaluation of expressions, and what parsers and compilers make. Runs heed the frames that ask
nothing of lines of control; the rest heeds every frame, but for assignments, which can be to any attribute of a class. -/
namespace Treeworks.Work
variable {α : Type} {F : Frame}

/-! ### Runs -/

@[grind ←]
theorem heeds_stepOf (callee : Value) : (stepOf callee).Heeds F := by
  unfold stepOf
  grind

@[grind ←]
theorem heeds_useStep (ware : Nat) (callee : Value) (leading : List Value) : (useStep ware callee leading).Heeds F := by
  have hadd (step : Step) : (do append (← attr (.ware ware) "fns") (← make fun s => s.addStep step) : Work Unit).Heeds F :=
    heeds_bind (heeds_attr _ _) fun fns => heeds_bind (heeds_make fun s => s.settled_addStep step) fun _ =>
      heeds_append fns _
  have hstep : (do
      let step ← if leading.isEmpty then stepOf callee else do
        let step ← stepOf (← make fun s => s.fix callee leading)
        pure { step with name := ← describe callee }
      append (← attr (.ware ware) "fns") (← make fun s => s.addStep step) : Work Unit).Heeds F := by
    dsimp only
    split
    · exact heeds_bind (heeds_stepOf _) hadd
    · refine heeds_bind (heeds_make fun s => s.settled_fix _ _) fun f => heeds_bind (heeds_stepOf f) fun step => ?_
      exact heeds_bind (heeds_describe _) fun _ => heeds_bind (heeds_pure _) hadd
  unfold useStep
  refine heeds_bind (heeds_isCallable _) fun callable => ?_
  dsimp only
  split
  · exact heeds_bind (heeds_failFor _ _) fun _ => hstep
  · exact hstep

@[grind ←]
theorem heeds_logNote (note : Note) : (logNote note).Heeds F := by
  unfold logNote
  grind

@[grind ←]
theorem heeds_react [F.Free] (move : Move) : (react move).Heeds F :=
  heeds_bind (heeds_of_holds (fun _ _ _ => rfl) fun _ _ => Frame.Free.holds rfl rfl (Nat.le_refl _)) fun _ =>
    heeds_bind (heeds_each heeds_logNote _) fun _ => heeds_pure _

@[grind ←]
theorem heeds_handlingAny (error : Option Value) {w : Work α} (hw : w.Heeds F) : (handlingAny error w).Heeds F := by
  unfold handlingAny
  grind

@[grind ←]
theorem heeds_answer [F.Free] (result : Except Value Value) : (answer result).Heeds F := by
  unfold answer
  grind

@[grind ←]
theorem heeds_futureOf [F.Free] (v : Value) : (futureOf v).Heeds F := by
  unfold futureOf
  grind

@[grind ←]
theorem heeds_settle [F.Free] (awaitable : Value) : (settle awaitable).Heeds F := by
  unfold settle
  refine heeds_bind (heeds_inspect _) fun running => ?_
  split
  · refine heeds_bind (heeds_futureOf _) fun future => heeds_bind (heeds_query _) fun ticket => ?_
    refine heeds_bind heeds_newCell fun cell => heeds_bind (heeds_changeLoop _) fun _ => ?_
    exact heeds_bind (heeds_react _) fun _ => heeds_pure _
  · refine heeds_bind (heeds_newCoroutine _) fun co => ?_
    refine heeds_bind (heeds_attempt (heeds_conclude _)) fun result => ?_
    exact heeds_bind (heeds_answer _) fun _ => heeds_pure _

@[grind ←]
theorem heeds_seek (steps : Value) (index : Nat) : (seek steps index).Heeds F := by
  unfold seek
  grind

@[grind ←]
theorem heeds_follow [F.Free] (fuel : Nat) (handled : Option Value) (d : Directive) : (follow fuel handled d).Heeds F := by
  induction fuel generalizing handled d with
  | zero => exact heeds_exhausted
  | succ fuel ih =>
    have hanswer (handled : Option Value) (result : Except Value Value) :
        (do follow fuel handled (← answer result)).Heeds F := heeds_bind (heeds_answer _) fun _ => ih _ _
    unfold follow
    cases d with
    | leave => exact heeds_pure _
    | fail e => exact heeds_reraise e
    | seek steps index =>
      refine heeds_bind (heeds_attempt (heeds_seek _ _)) fun found => ?_
      cases found with
      | ok found => exact heeds_bind (heeds_react _) fun _ => ih _ _
      | error e => exact hanswer _ _
    | invoke step args context => exact heeds_bind (heeds_attempt (heeds_call _ _ _)) fun result => hanswer _ _
    | call done args =>
      exact heeds_bind (heeds_attempt (heeds_handlingAny _ (heeds_call _ _ _))) fun result => hanswer _ _
    | await v => exact heeds_bind (heeds_settle v) fun next => ih _ _

@[grind ←]
theorem heeds_runWare [F.Free] (ware : Nat) (args : List Value) : (runWare ware args).Heeds F := by
  unfold runWare
  grind

@[grind ←]
theorem heeds_callNext [F.Free] (ticket : Nat) (error : Value) : (callNext ticket error).Heeds F := by
  unfold callNext
  grind

@[grind ←]
theorem heeds_reportUnhandled (text : Datum) (error : Value) : (reportUnhandled text error).Heeds F := by
  unfold reportUnhandled
  grind

@[grind ←]
theorem heeds_tellSettled [F.Free] (ticket future : Nat) : (tellSettled ticket future).Heeds F := by
  unfold tellSettled
  refine heeds_bind (heeds_query _) fun step => ?_
  extract_lets name ending
  have hending (error : Option Value) : (ending error).Heeds F := by
    refine heeds_bind (heeds_react _) fun directive => heeds_bind (heeds_attempt (heeds_follow _ _ _)) fun result => ?_
    split <;> grind
  refine heeds_bind (heeds_inspect _) fun f => ?_
  split
  · exact heeds_bind (heeds_pure _) hending
  · exact heeds_bind (heeds_pure _) hending
  · refine heeds_bind (heeds_formatted _) fun text => heeds_bind (heeds_make (by grind)) fun e => ?_
    exact heeds_bind (heeds_pure _) hending

@[grind ←]
theorem heeds_notifySettled [F.Free] (ticket future : Nat) : (notifySettled ticket future).Heeds F :=
  heeds_bind (heeds_modifyStore fun s => s.settled_updateWare _ _) fun _ => heeds_tellSettled ticket future

/-! ### Expressions and paths -/

@[grind ←]
theorem heeds_manualFuture (id : String) : (manualFuture id).Heeds F := by
  unfold manualFuture
  refine heeds_bind (heeds_inspect _) fun known => ?_
  split
  · exact heeds_pure _
  · refine heeds_bind (heeds_makeInLoop Loop.calm_newFuture) fun i => heeds_bind (heeds_modify fun _ => F.beside rfl rfl rfl) fun _ => ?_
    exact heeds_bind (heeds_register _ _) fun _ => heeds_pure _

@[grind ←]
theorem heeds_lookup (locals : Table Value) (name : String) : (lookup locals name).Heeds F := by
  unfold lookup
  grind

mutual
@[grind ←]
theorem heeds_evaluate (locals : Table Value) : (e : Expr) → (evaluate locals e).Heeds F
  | .null | .bool _ | .int _ | .float _ | .str _ => by unfold evaluate; exact heeds_pure _
  | .list items => by
    unfold evaluate
    exact heeds_bind (heeds_evaluateAll locals items) fun _ => heeds_newList _
  | .dict fields => by
    unfold evaluate
    exact heeds_bind (heeds_evaluateFields locals fields) fun _ => heeds_newDict _
  | .ref id => by unfold evaluate; exact heeds_lookup _ _
  | .function (.mk name signature kind asynchronous quiet leading id body) => by
    unfold evaluate
    have hid (f : Value) : (do
        match id with
        | some id => register id f
        | none => pure ()
        return f : Work Value).Heeds F := by
      cases id with
      | none => exact heeds_pure f
      | some id => exact heeds_bind (heeds_register id f) fun _ => heeds_pure f
    refine heeds_bind (heeds_newFunction _) fun f => ?_
    cases leading with
    | none => exact heeds_bind (heeds_pure f) hid
    | some args =>
      exact heeds_bind (heeds_evaluateAll locals args) fun _ => heeds_bind (heeds_make fun s => s.settled_fix _ _) hid
  | .callback _ _ => by unfold evaluate; exact heeds_newFunction _
  | .record fields => by
    unfold evaluate
    exact heeds_bind (heeds_evaluateFields locals fields) fun _ => heeds_make (by grind)
  | .view fields => by
    unfold evaluate
    exact heeds_bind (heeds_evaluateFields locals fields) fun _ => heeds_make (by grind)
  | .point line column => by
    unfold evaluate
    refine heeds_bind (heeds_evaluate locals line) fun _ => heeds_bind (heeds_evaluate locals column) fun _ => ?_
    exact heeds_make (by grind)
  | .set items => by
    unfold evaluate
    refine heeds_bind (heeds_evaluateAll locals items) fun vs => heeds_bind (heeds_elementsOf vs) fun _ => ?_
    exact heeds_make (by grind)
  | .tuple items => by
    unfold evaluate
    exact heeds_bind (heeds_evaluateAll locals items) fun _ => heeds_newTuple _
  | .future id => by unfold evaluate; exact heeds_bind (heeds_manualFuture id) fun _ => heeds_pure _
  | .coroutine acts => by unfold evaluate; exact heeds_newCoroutine _
  | .awaitable acts => by
    unfold evaluate
    refine heeds_bind (heeds_newCoroutine _) fun v => ?_
    split <;> exact heeds_pure _

@[grind ←]
theorem heeds_evaluateAll (locals : Table Value) : (es : List Expr) → (evaluateAll locals es).Heeds F
  | [] => by unfold evaluateAll; exact heeds_pure _
  | e :: es => by
    unfold evaluateAll
    refine heeds_bind (heeds_evaluate locals e) fun _ => heeds_bind (heeds_evaluateAll locals es) fun _ => ?_
    exact heeds_pure _

@[grind ←]
theorem heeds_evaluateFields (locals : Table Value) :
    (fields : List (String × Expr)) → (evaluateFields locals fields).Heeds F
  | [] => by unfold evaluateFields; exact heeds_pure _
  | (name, e) :: fields => by
    unfold evaluateFields
    refine heeds_bind (heeds_evaluate locals e) fun _ => heeds_bind (heeds_evaluateFields locals fields) fun _ => ?_
    exact heeds_pure _
end

@[grind ←]
theorem heeds_keyValue (key : Key) : (keyValue key).Heeds F := by
  unfold keyValue
  grind

@[grind ←]
theorem heeds_attributeName (v : Value) (key : Key) : (attributeName v key).Heeds F := by
  unfold attributeName
  grind

@[grind ←]
theorem heeds_below (v : Value) (key : Key) : (below v key).Heeds F := by
  unfold below
  grind

@[grind ←]
theorem heeds_walk (v : Value) (path : Path) : (walk v path).Heeds F := by
  induction path generalizing v with
  | nil => exact heeds_pure v
  | cons key path ih => exact heeds_bind (heeds_below v key) ih

@[grind ←]
theorem heeds_assign [F.Lax] (v : Value) (key : Key) (value : Value) : (assign v key value).Heeds F := by
  have hset (name : String) := heeds_setAttribute (Frame.Lax.stores (F := F) v name) value
  unfold assign
  grind

@[grind ←]
theorem heeds_assignAt [F.Lax] (v : Value) (path : Path) (value : Value) : (assignAt v path value).Heeds F := by
  unfold assignAt
  grind

@[grind ←]
theorem heeds_extend (v value : Value) : (extend v value).Heeds F := by
  unfold extend
  grind

@[grind ←]
theorem heeds_increment (v : Value) (key : Key) : (increment v key).Heeds F := by
  unfold increment
  refine heeds_bind (heeds_keyValue key) fun key => heeds_bind (heeds_query _) fun entries => ?_
  extract_lets ending
  have hending (old : Value) : (ending old).Heeds F := by
    refine heeds_bind (heeds_special _ _) fun m => ?_
    split <;> grind
  split
  · exact heeds_bind (heeds_valueUnder _ _) fun _ => heeds_bind (heeds_pure _) hending
  · exact heeds_bind (heeds_callMethod _ _ _) hending

/-! ### What parsers and compilers make -/

@[grind ←]
theorem heeds_pathOf (v : Value) : (pathOf v).Heeds F := by
  unfold pathOf
  grind

@[grind ←]
theorem heeds_anyStart (begins : String → Bool) (vs : List Value) : (startsWith.anyStart begins vs).Heeds F := by
  fun_induction startsWith.anyStart begins vs <;> grind

@[grind ←]
theorem heeds_startsWith (line : String) (v : Value) : (startsWith line v).Heeds F := by
  unfold startsWith
  grind

@[grind ←]
theorem heeds_longestStart (line : String) (best : Option Value) (keys : List Value) :
    (longestStart line best keys).Heeds F := by
  induction keys generalizing best with
  | nil => exact heeds_pure best
  | cons key keys ih =>
    unfold longestStart
    grind

@[grind ←]
theorem heeds_lineType (rules : Value) (line : String) : (lineType rules line).Heeds F := by
  unfold lineType
  grind

@[grind ←]
theorem heeds_bagIn (file key : Value) : (bagIn file key).Heeds F := by
  unfold bagIn
  grind

@[grind ←]
theorem heeds_treeIn (bag : Value) : (treeIn bag).Heeds F := heeds_getEntry bag _

@[grind ←]
theorem heeds_slotTree (file key : Value) : (slotTree file key).Heeds F := by
  unfold slotTree
  grind

@[grind ←]
theorem heeds_valueOf (fuel : Nat) (d : Datum) : (valueOf fuel d).Heeds F := by
  induction fuel generalizing d with
  | zero => exact heeds_pure _
  | succ fuel ih =>
    unfold valueOf
    grind

@[grind ←]
theorem heeds_seenValue (v : Value) : (seenValue v).Heeds F := by
  unfold seenValue
  grind

@[grind ←]
theorem heeds_newRoot (parts : Table Value) (children : List Value) : (newRoot parts children).Heeds F := by
  unfold newRoot
  grind

@[grind ←]
theorem heeds_lineNode (rules line : Value) : (lineNode rules line).Heeds F := by
  unfold lineNode
  grind

@[grind ←]
theorem heeds_parseProduct (worker : Value) (production : Production) : (parseProduct worker production).Heeds F := by
  have hlines (lines : List Value) : (do
      let rules ← attr worker "rules"
      newRoot [] (← each (lineNode rules) (lines.filter isFilled)) : Work Value).Heeds F :=
    heeds_bind (heeds_attr _ _) fun rules => heeds_bind (heeds_each (heeds_lineNode rules) _) fun _ => heeds_newRoot _ _
  unfold parseProduct
  refine heeds_bind (heeds_attr _ _) fun file => heeds_bind (heeds_attr _ _) fun contents => ?_
  split
  · refine heeds_bind (heeds_pathOf _) fun path => heeds_bind (heeds_attr _ _) fun settings => ?_
    exact heeds_bind (heeds_seenValue _) fun _ => heeds_newRoot _ _
  · split
    · exact heeds_bind (heeds_pure _) hlines
    · exact heeds_bind (heeds_callMethod _ _ _) fun _ => heeds_bind (heeds_elements _) hlines

@[grind ←]
theorem heeds_joiner (settings : Value) (standard : String) : (joiner settings standard).Heeds F := by
  unfold joiner
  grind

@[grind ←]
theorem heeds_entryOr (v : Value) {key : Work Value} (hkey : key.Heeds F) (standard : Value) :
    (entryOr v key standard).Heeds F := by
  unfold entryOr
  grind

@[grind ←]
theorem heeds_taggedChild (tags child : Value) : (taggedChild tags child).Heeds F := by
  unfold taggedChild
  grind

@[grind ←]
theorem heeds_textsOf (values : List Value) : (textsOf values).Heeds F := by
  unfold textsOf
  grind

@[grind ←]
theorem heeds_joined (join : Value) {values : Work (List Value)} (h : values.Heeds F) : (joined join values).Heeds F := by
  unfold joined
  grind

@[grind ←]
theorem heeds_failChildless : (failChildless : Work α).Heeds F := by
  unfold failChildless
  grind

@[grind ←]
theorem heeds_compileProduct (worker : Value) (production : Production) :
    (compileProduct worker production).Heeds F := by
  unfold compileProduct
  refine heeds_bind (heeds_attr _ _) fun file => heeds_bind (heeds_attr _ _) fun processor => ?_
  refine heeds_bind (heeds_attr _ _) fun name => heeds_bind (heeds_slotTree _ _) fun tree => ?_
  split
  · exact heeds_pure _
  · refine heeds_bind (heeds_attr _ _) fun settings => heeds_bind (heeds_seenValue _) fun _ => ?_
    refine heeds_bind (heeds_pathOf _) fun path => heeds_bind (heeds_seenValue _) fun _ => ?_
    exact heeds_newDict _
  · refine heeds_bind heeds_store fun s => ?_
    split
    · dsimp only
      split <;> grind
    · exact heeds_failChildless

@[grind ←]
theorem heeds_produce (worker : Value) (type : Nat) : (produce worker type).Heeds F := by
  unfold produce
  grind

end Treeworks.Work
