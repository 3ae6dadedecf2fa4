import Treeworks.Script.Performance
import Treeworks.Proofs.Heed.Service

/-! Operations of scripts: those that make families, see what there is, and change the environment and the settings. They
heed a frame if, besides timed steps, changes of the logging context and new tasks do. -/
namespace Treeworks

/-- Whether changes of the current logging context, and tasks for coroutines, heed a frame besides. -/
class Frame.Hosts (F : Frame) : Prop extends Frame.Opens F where
  newSpanId : Work.newSpanId.Heeds F
  setScope : ∀ c, (Work.setScope c).Heeds F
  pushScope : ∀ c, (Work.pushScope c).Heeds F
  restoreScope : ∀ token, (Work.restoreScope token).Heeds F
  launch : ∀ v task report, (Work.launch v task report).Heeds F

namespace Work
variable {α β : Type} {F : Frame}

theorem heeds_launch [F.Free] (v : Value) (task : Option String) (report : Report) : (launch v task report).Heeds F := by
  unfold launch
  refine heeds_bind heeds_machine fun m => ?_
  split
  · refine heeds_bind heeds_newCell fun cell => heeds_bind (heeds_putInLoop _) fun t => ?_
    exact heeds_bind heeds_newCell fun told => heeds_bind (heeds_changeLoop _) fun _ => heeds_pure _
  · exact heeds_bind (heeds_conclude _) fun _ => heeds_observeReport _ _
  · exact heeds_failFor _ _
  · exact heeds_failFor _ _

instance [F.Free] : F.Hosts where
  newSpanId := heeds_newSpanId
  setScope := heeds_setScope
  pushScope := heeds_pushScope
  restoreScope := heeds_restoreScope
  launch := heeds_launch

section
variable [F.Hosts]

@[grind ←]
theorem heeds_spanIdMade : newSpanId.Heeds F := Frame.Hosts.newSpanId

@[grind ←]
theorem heeds_scopeSet (c : LogContext) : (setScope c).Heeds F := Frame.Hosts.setScope c

@[grind ←]
theorem heeds_scopePushed (c : LogContext) : (pushScope c).Heeds F := Frame.Hosts.pushScope c

@[grind ←]
theorem heeds_scopeRestored (token : Nat) : (restoreScope token).Heeds F := Frame.Hosts.restoreScope token

@[grind ←]
theorem heeds_launched (v : Value) (task : Option String) (report : Report) : (launch v task report).Heeds F :=
  Frame.Hosts.launch v task report

end

/-! ### Families and classes -/

@[grind ←]
theorem heeds_failConfiguration (message option : String) : (failConfiguration message option : Work α).Heeds F := by
  unfold failConfiguration
  grind

@[grind ←]
theorem heeds_requireClass (option : String) (v : Value) : (requireClass option v).Heeds F := by
  unfold requireClass
  grind

/-- To define a class with attributes that a frame allows for. -/
theorem heeds_newType (name : String) (module doc : Value) (bases : List Nat) {attrs : Table Value} (role : Role)
    (h : F.defines attrs) : (perhaps fun s => s.newType name module doc bases attrs role).Heeds F :=
  heeds_perhaps fun hs => F.defined h hs

@[grind ←]
theorem heeds_newFamily (name parser compiler data : Value) : (newFamily name parser compiler data).Heeds F := by
  unfold newFamily
  split
  · split
    · exact heeds_failConfiguration _ _
    · refine heeds_bind (heeds_requireClass _ _) fun i => heeds_bind (heeds_requireClass _ _) fun j => ?_
      refine heeds_bind (heeds_newType _ _ _ _ _ (F.defines_public (by simp))) fun family => ?_
      refine heeds_bind (heeds_introduce family) fun _ => ?_
      exact heeds_bind heeds_store fun s => heeds_bind (heeds_log _ _ _ _) fun _ => heeds_pure _
  · exact heeds_failConfiguration _ _

@[grind ←]
theorem heeds_newWorkerType [F.Lax] (parses : Bool) (spec : WorkerSpec) : (newWorkerType parses spec).Heeds F := by
  have hrest (attrs : Table Value) : (do
      let i ← perhaps fun s => s.newType spec.name (.str "__main__") .null [] attrs (.worker parses spec)
      nameParts i
      register spec.id (.type i) : Work Unit).Heeds F :=
    heeds_bind (heeds_newType _ _ _ _ _ (Frame.Lax.defines attrs)) fun i => heeds_bind (heeds_nameParts i) fun _ => heeds_register _ _
  refine heeds_bind (heeds_evaluateFields _ _) fun attrs => ?_
  dsimp only
  generalize (if parses then "rules" else "tags") = table
  split
  · exact heeds_bind (heeds_pure _) hrest
  · exact heeds_bind (heeds_newDict _) fun _ => heeds_bind (heeds_pure _) hrest

/-! ### States of objects -/

@[grind ←]
theorem heeds_seeAttrs (v : Value) (names : List String) : (seeAttrs v names).Heeds F := by
  unfold seeAttrs
  grind

@[grind ←]
theorem heeds_seeDiagnostic (v : Value) : (seeDiagnostic v).Heeds F := by
  unfold seeDiagnostic
  grind

@[grind ←]
theorem heeds_seeFaultMapping (v : Value) (e : EngineFault) : (seeFaultMapping v e).Heeds F := by
  have hcause (head context : List (String × Datum)) : (do
      let cause ← attr v "cause"
      let cause : List (String × Datum) ← if cause = .null then pure [] else do
        pure [("cause", .str (← printed cause))]
      return .obj (head ++ context ++ cause) : Work Datum).Heeds F := by
    refine heeds_bind (heeds_attr _ _) fun cause => ?_
    dsimp only
    split <;> grind
  unfold seeFaultMapping
  refine heeds_bind (heeds_see _) fun message => heeds_bind (heeds_attr _ _) fun category => ?_
  refine heeds_bind (heeds_see _) fun category => heeds_bind (heeds_attr _ _) fun context => ?_
  refine heeds_bind (heeds_contextDict _) fun context => heeds_bind (heeds_truth _) fun filled => ?_
  dsimp only
  split
  · exact heeds_bind (heeds_see _) fun _ => heeds_bind (heeds_pure _) fun context => hcause _ context
  · exact heeds_bind (heeds_pure _) fun context => hcause _ context

@[grind ←]
theorem heeds_describeEngineFault (v : Value) (fault : Nat) (e : EngineFault) :
    (describeEngineFault v fault e).Heeds F := by
  unfold describeEngineFault
  refine heeds_bind (heeds_written _) fun repr => heeds_bind (heeds_see _) fun message => ?_
  refine heeds_bind (heeds_attr _ _) fun category => heeds_bind (heeds_see _) fun category => ?_
  refine heeds_bind (heeds_contextDict _) fun context => heeds_bind (heeds_see _) fun context => ?_
  refine heeds_bind (heeds_attr _ _) fun bag => heeds_bind (heeds_see _) fun bag => ?_
  refine heeds_bind (heeds_seeFaultMapping _ _) fun mapping => ?_
  split <;> grind

@[grind ←]
theorem heeds_describeFault (v : Value) : (describeFault v).Heeds F := by
  unfold describeFault
  grind

@[grind ←]
theorem heeds_typeLabel (i : Nat) : (typeLabel i).Heeds F := by
  unfold typeLabel
  grind

@[grind ←]
theorem heeds_seeOwn (t : TypeDef) (name : String) (v : Value) : (seeOwn t name v).Heeds F := by
  unfold seeOwn
  grind

@[grind ←]
theorem heeds_seeType (i : Nat) : (seeType i).Heeds F := by
  unfold seeType
  grind

@[grind ←]
theorem heeds_seeCreated (v : Value) : (seeCreated v).Heeds F := by
  unfold seeCreated
  grind

@[grind ←]
theorem heeds_seeSteps (i : Nat) : (seeSteps i).Heeds F := by
  have hstep (step : Value) : (do
      return Datum.arr (← each (fun part => do see (← attr step part))
        ["name", "required", "accepted", "wants_context"]) : Work Datum).Heeds F := by
    grind
  unfold seeSteps
  refine heeds_bind heeds_store fun s => heeds_bind (heeds_size _) fun count => ?_
  refine heeds_bind (heeds_elements _) fun steps => heeds_bind (heeds_each hstep steps) fun shown => ?_
  dsimp only
  split <;> grind

@[grind ←]
theorem heeds_seeStep (step : Step) : (seeStep step).Heeds F := by
  unfold seeStep
  grind

@[grind ←]
theorem heeds_seeContext (c : LogContext) : (seeContext c).Heeds F := by
  unfold seeContext
  grind

@[grind ←]
theorem heeds_seeSpan (i : Nat) : (seeSpan i).Heeds F := by
  unfold seeSpan
  refine heeds_bind heeds_machine fun m => heeds_bind (heeds_spanFields _) fun fields => ?_
  refine heeds_bind (heeds_entryFields _) fun shown => heeds_bind (heeds_elementNumber _) fun _ => ?_
  extract_lets seen
  have hseen (shown : List (String × Datum)) : (seen shown).Heeds F := heeds_bind (heeds_see _) fun _ => heeds_pure _
  split
  · refine heeds_bind (heeds_isAmong _ _) fun measured => ?_
    split
    · exact heeds_bind (heeds_see _) fun _ => heeds_bind (heeds_pure _) hseen
    · exact heeds_bind (heeds_pure _) hseen
  · exact heeds_bind (heeds_pure _) hseen

/-! ### Names, errors and spans of scripts -/

@[grind ←]
theorem heeds_registered (id : String) : (registered id).Heeds F := heeds_lookup _ _

@[grind ←]
theorem heeds_registered? (id : Option String) : (registered? id).Heeds F := by
  unfold registered?
  grind

@[grind ←]
theorem heeds_ask (id method : String) (args : List Value) : (ask id method args).Heeds F := by
  unfold ask
  grind

@[grind ←]
theorem heeds_typeOf (id : String) : (typeOf id).Heeds F := by
  unfold typeOf
  grind

@[grind ←]
theorem heeds_baseOf (id : String) : (baseOf id).Heeds F := by
  unfold baseOf
  grind

@[grind ←]
theorem heeds_registerAs (id : Option String) (v : Value) : (registerAs id v).Heeds F := by
  unfold registerAs
  grind

@[grind ←]
theorem heeds_registerNew (id : Option String) (v : Value) : (registerNew id v).Heeds F := by
  unfold registerNew
  grind

@[grind ←]
theorem heeds_newFaultContext (entries : Table Value) : (newFaultContext entries).Heeds F := by
  unfold newFaultContext
  grind

@[grind ←]
theorem heeds_faultOptions (spec : ErrorSpec) : (faultOptions spec).Heeds F := by
  unfold faultOptions
  extract_lets withCategory
  have hcategory (category : Option Category) : (withCategory category).Heeds F := by
    unfold withCategory
    extract_lets withContext
    have hcontext (context : Option Value) : (withContext context).Heeds F := by
      unfold withContext
      extract_lets withCause
      have hcause (cause : Option Value) : (withCause cause).Heeds F := by
        unfold withCause
        split <;> grind
      split
      · exact heeds_bind (heeds_registered _) fun _ => heeds_bind (heeds_pure _) hcause
      · exact heeds_bind (heeds_pure _) hcause
    split
    · refine heeds_bind (heeds_evaluateFields _ _) fun t => heeds_bind (heeds_newFaultContext t) fun _ => ?_
      exact heeds_bind (heeds_pure _) hcontext
    · exact heeds_bind (heeds_pure _) hcontext
  split
  · exact heeds_bind (heeds_pure _) hcategory
  · split
    · exact heeds_bind (heeds_pure _) hcategory
    · exact heeds_bind (heeds_fail _) hcategory

@[grind ←]
theorem heeds_newEngineFault (kind : EngineKind) (message node : Value) (o : FaultOptions) :
    (newEngineFault kind message node o).Heeds F := by
  unfold newEngineFault
  extract_lets cause category given checked
  have hgiven (message : Value) : (given message).Heeds F := by
    unfold given
    extract_lets built
    have hbuilt (context : Value) : (built context).Heeds F := by
      unfold built
      extract_lets made
      have hmade (u : Unit) : (made u).Heeds F := heeds_make fun s => s.settled_addFault _ _ _
      split
      · exact heeds_bind (heeds_fail _) hmade
      · exact hmade ()
    split
    · exact heeds_bind (heeds_pure _) hbuilt
    · exact heeds_bind (heeds_make fun s => s.settled_contextFor _ _) hbuilt
  have hchecked (u : Unit) : (checked u).Heeds F := by
    unfold checked
    split
    · exact heeds_bind (heeds_written _) fun _ => heeds_bind (heeds_pure _) hgiven
    · exact heeds_bind (heeds_pure _) hgiven
  split
  · exact heeds_bind (heeds_fail _) hchecked
  · exact hchecked ()

@[grind ←]
theorem heeds_newError (spec : ErrorSpec) : (newError spec).Heeds F := by
  unfold newError
  grind

@[grind ←]
theorem heeds_addContextTo [F.Lax] (v : Value) (values : Table Value) : (addContextTo v values).Heeds F := by
  unfold addContextTo
  grind

@[grind ←]
theorem heeds_reportOp (how : Reporting) (file reason position : Value) (id : Option String) :
    (reportOp how file reason position id).Heeds F := by
  unfold reportOp
  extract_lets isDiagnostic reported
  have hreported (r : Bool × Value) : (reported r).Heeds F := by
    refine heeds_bind (heeds_registerAs _ _) fun _ => heeds_bind (heeds_attr _ _) fun messages => ?_
    exact heeds_bind (heeds_seeDiagnostic _) fun _ => heeds_bind (heeds_size _) fun _ => heeds_pure _
  refine heeds_bind (heeds_attempt (heeds_callMethod _ _ _)) fun result => ?_
  split
  · exact heeds_bind (heeds_pure _) hreported
  · refine heeds_bind heeds_store fun s => ?_
    split
    · exact heeds_bind (heeds_pure _) hreported
    · exact heeds_bind (heeds_reraise _) hreported

@[grind ←]
theorem heeds_wareOf (v : Value) : (wareOf v).Heeds F := by
  unfold wareOf
  grind

@[grind ←]
theorem heeds_spanOf (id : String) : (spanOf id).Heeds F := by
  unfold spanOf
  grind

@[grind ←]
theorem heeds_secondsValue (x : Option Seconds) : (secondsValue x).Heeds F := by
  unfold secondsValue
  grind

@[grind ←]
theorem heeds_newTiming [F.Hosts] (spec : SpanSpec) : (newTiming spec).Heeds F := by
  unfold newTiming
  refine heeds_bind (heeds_evaluate _ _) fun step => ?_
  extract_lets timed
  have htimed (id : Value) : (timed id).Heeds F := by
    refine heeds_bind (heeds_evaluate _ _) fun parent => heeds_bind (heeds_secondsValue _) fun started => ?_
    refine heeds_bind (heeds_secondsValue _) fun ended => heeds_bind (heeds_evaluateFields _ _) fun metrics => ?_
    refine heeds_bind (heeds_registered? _) fun error => heeds_bind (heeds_evaluateFields _ _) fun added => ?_
    extract_lets made
    have hmade (error : Value) : (made error).Heeds F := by
      unfold made
      refine heeds_bind (heeds_newDict _) fun metrics => ?_
      refine heeds_bind (heeds_make fun s => s.settled_addSpan _) fun v => ?_
      extract_lets i kept stopped
      have hkept (u : Unit) : (kept u).Heeds F := heeds_bind (heeds_register _ _) fun _ => heeds_pure _
      have hstopped (u : Unit) : (stopped u).Heeds F := by
        unfold stopped
        split
        · exact heeds_bind (heeds_elementNumber _) fun _ => heeds_bind (heeds_modify fun _ => F.beside rfl rfl rfl) hkept
        · exact hkept ()
      split
      · exact heeds_bind (heeds_stopSpan _) hstopped
      · exact hstopped ()
    split
    · exact heeds_bind (heeds_registered _) hmade
    · exact heeds_bind (heeds_pure _) hmade
  split
  · exact heeds_bind (heeds_evaluate _ _) htimed
  · exact heeds_bind heeds_spanIdMade htimed

/-! ### Settings and the environment -/

@[grind ←]
theorem heeds_readSettings (defaults : Table (Option String)) : (readSettings defaults).Heeds F := by
  unfold readSettings
  refine heeds_bind heeds_machine fun m => ?_
  split
  · exact heeds_pure _
  · split
    · exact heeds_bind (heeds_modify fun _ => F.beside rfl rfl rfl) fun _ => heeds_pure _
    · exact heeds_pure _

@[grind ←]
theorem heeds_readDefaults (text : String) : (readDefaults text).Heeds F := by
  unfold readDefaults
  extract_lets checked
  have hchecked (u : Unit) : (checked u).Heeds F := by
    refine heeds_bind heeds_machine fun m => ?_
    dsimp only
    split
    · exact heeds_bind (heeds_modify fun _ => F.beside rfl rfl rfl) fun _ => heeds_readSettings _
    · exact heeds_readSettings _
  split
  · exact heeds_bind (heeds_fail _) hchecked
  · exact hchecked ()

@[grind ←]
theorem heeds_setVariable (name : String) (value : Datum) : (setVariable name value).Heeds F := by
  have hset (name t : String) : (modify fun m => { m with vars := m.vars.set name t } : Work Unit).Heeds F :=
    heeds_modify fun _ => F.beside rfl rfl rfl
  unfold setVariable
  split
  · split
    · split
      · exact heeds_fail _
      · split
        · exact heeds_fail _
        · exact hset _ _
    · exact heeds_fail _
  · exact heeds_fail _

@[grind ←]
theorem heeds_word (asked : Value) (standard method : String) (fold : String → String) :
    (word asked standard method fold).Heeds F := by
  unfold word
  grind

@[grind ←]
theorem heeds_filtered (asked : Value) (standard : List String) : (filtered asked standard).Heeds F := by
  unfold filtered
  grind

/-! ### Operations -/

@[grind ←]
theorem heeds_refuseSelf (callee : String) (values : Table Value) : (refuseSelf callee values).Heeds F := by
  unfold refuseSelf
  grind

@[grind ←]
theorem heeds_contextOfValues (values : Table Value) : (contextOfValues values).Heeds F := by
  unfold contextOfValues
  grind

@[grind ←]
theorem heeds_contextOp [F.Hosts] (action : ContextAction) (values base : Table Value) :
    (contextOp action values base).Heeds F := by
  unfold contextOp
  extract_lets current answer merged
  have hcurrent : current.Heeds F := heeds_bind heeds_machine fun _ => heeds_pure _
  have hanswer : answer.Heeds F := heeds_bind hcurrent heeds_seeContext
  have hmerged (c : LogContext) : (merged c).Heeds F := heeds_bind (heeds_refuseSelf _ _) fun _ => heeds_pure _
  split
  · exact hanswer
  · exact heeds_bind (heeds_contextOfValues _) fun c => heeds_bind (heeds_scopeSet c) fun _ => hanswer
  · exact heeds_bind hcurrent fun c => heeds_bind (hmerged c) fun c => heeds_bind (heeds_scopeSet c) fun _ => hanswer
  · exact heeds_bind (heeds_scopeSet _) fun _ => hanswer
  · refine heeds_bind (heeds_contextOfValues _) fun c => heeds_bind (hmerged c) fun d => ?_
    exact heeds_bind (heeds_seeContext c) fun _ => heeds_bind (heeds_seeContext d) fun _ => heeds_pure _
  · exact heeds_bind heeds_contextFields fun _ => heeds_bind (heeds_seeTable _) fun _ => heeds_pure _
  · refine heeds_bind hcurrent fun c => heeds_bind (hmerged c) fun c => heeds_bind (heeds_scopePushed c) fun token => ?_
    exact heeds_bind (heeds_registerAs _ _) fun _ => hanswer
  · refine heeds_bind (heeds_registered _) fun v => ?_
    split
    · exact heeds_bind (heeds_scopeRestored _) fun _ => hanswer
    · exact heeds_failLacking _ _

@[grind ←]
theorem heeds_filterOp (families level : Value) (events : List (Value × Table Value)) :
    (filterOp families level events).Heeds F := by
  unfold filterOp
  refine heeds_bind (heeds_elements _) fun vs => heeds_bind (heeds_elementsOf vs) fun families => ?_
  refine heeds_bind (heeds_elementNumber _) fun _ => ?_
  extract_lets known
  clear_value known
  cases known with
  | none => exact heeds_fail _
  | some threshold =>
    refine heeds_bind heeds_machine fun m => ?_
    refine heeds_bind (heeds_each (fun e => ?_) _) fun _ => heeds_pure _
    exact heeds_bind (heeds_passesFamily _ _ _ _) fun _ => heeds_pure _

@[grind ←]
theorem heeds_resultOf (result : Except Value Datum) : (resultOf result).Heeds F := by
  unfold resultOf
  grind

@[grind ←]
theorem heeds_takeLogs (shown : Bool) : (takeLogs shown).Heeds F :=
  heeds_bind heeds_machine fun _ => heeds_bind (heeds_modify fun _ => F.beside rfl rfl rfl) fun _ => heeds_pure _

@[grind ←]
theorem heeds_raiseNamed (id : Option String) : (raiseNamed id).Heeds F := by
  unfold raiseNamed
  grind

/-! ### Operations without operations inside -/

theorem heeds_environment (vars : List (String × Datum)) (reset : Bool) (dotenv : Option (List (String × String))) :
    (simple (.env vars reset dotenv)).Heeds F := by
  refine heeds_bind (heeds_each (fun e => heeds_setVariable _ _) _) fun _ => ?_
  extract_lets defaulted
  have hdefaulted (u : Unit) : (defaulted u).Heeds F := by
    unfold defaulted
    split
    · exact heeds_pure _
    · exact heeds_bind (heeds_readDefaults _) fun _ => heeds_pure _
  split
  · exact heeds_bind (heeds_modify fun _ => F.beside rfl rfl rfl) hdefaulted
  · exact hdefaulted ()

/-- Operations that have none inside and do not configure logging. -/
theorem heeds_simple [F.Lax] [F.Hosts] {op : Op} (h : ∀ level format families force, op ≠ .configure level format families force) :
    (simple op).Heeds F := by
  cases op with
  | configure level format families force => exact absurd rfl (h level format families force)
  | env vars reset dotenv => exact heeds_environment vars reset dotenv
  | move file filename directory extension =>
    refine heeds_bind (heeds_registered _) fun v => heeds_bind (heeds_evaluate _ _) fun filename => ?_
    refine heeds_bind (heeds_evaluate _ _) fun directory => heeds_bind (heeds_evaluate _ _) fun extension => ?_
    split <;> grind
  | diagnostic id reason position file fatal =>
    refine heeds_bind (heeds_evaluate _ _) fun reason => heeds_bind (heeds_evaluate _ _) fun position => ?_
    refine heeds_bind (heeds_evaluate _ _) fun file => ?_
    dsimp only
    split <;> grind
  | use on step args repeated =>
    refine heeds_bind (heeds_registered _) fun receiving => heeds_bind (heeds_evaluate _ _) fun step => ?_
    refine heeds_bind (heeds_evaluateAll _ _) fun args => ?_
    exact heeds_bind (heeds_each (fun _ => heeds_callMethod _ _ _) _) fun _ => heeds_see _
  | type id name module bases attrs doc =>
    refine heeds_bind (heeds_each heeds_baseOf _) fun bases => heeds_bind (heeds_evaluateFields _ _) fun attrs => ?_
    refine heeds_bind (heeds_evaluate _ _) fun module => heeds_bind (heeds_evaluate _ _) fun doc => ?_
    refine heeds_bind (heeds_newType _ _ _ _ _ (Frame.Lax.defines _)) fun i => heeds_bind (heeds_introduce i) fun _ => ?_
    exact heeds_bind (heeds_register _ _) fun _ => heeds_seeType i
  | subfamily id of name attrs =>
    refine heeds_bind (heeds_baseOf _) fun base => heeds_bind (heeds_evaluateFields _ _) fun attrs => ?_
    refine heeds_bind (heeds_newType _ _ _ _ _ (Frame.Lax.defines _)) fun i => heeds_bind (heeds_introduce i) fun _ => ?_
    exact heeds_bind (heeds_register _ _) fun _ => heeds_pure _
  | family id name parser compiler data =>
    refine heeds_bind (heeds_evaluate _ _) fun name => heeds_bind (heeds_evaluate _ _) fun parser => ?_
    refine heeds_bind (heeds_evaluate _ _) fun compiler => heeds_bind (heeds_evaluate _ _) fun data => ?_
    refine heeds_bind (heeds_newFamily _ _ _ _) fun i => heeds_bind (heeds_register _ _) fun _ => ?_
    grind
  | settle future value error =>
    refine heeds_bind (heeds_manualFuture _) fun i => ?_
    extract_lets settled
    have hsettled (v : Value) : (settled v).Heeds F := by
      refine heeds_bind heeds_machine fun m => ?_
      split
      · exact heeds_fail _
      · split
        · exact heeds_fail _
        · exact heeds_bind (heeds_modifyLoop fun l => l.calm_settle i _) fun _ => heeds_pure _
    split
    · exact heeds_bind (heeds_registered _) hsettled
    · exact heeds_bind (heeds_evaluate _ _) hsettled
  | _ =>
    unfold simple
    grind

end Work
end Treeworks
