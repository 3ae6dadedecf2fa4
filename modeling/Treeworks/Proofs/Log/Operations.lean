import Treeworks.Proofs.Heed.Scripts

/-! Scripts, and what becomes of the configuration of logging while their operations are performed. The operations that
configure logging are the only ones that can do more to it than to use loggers. -/
namespace Treeworks

mutual
/-- Whether an operation forces a configuration of logging, or one inside it does. -/
def Op.forces : Op → Bool
  | .configure _ _ _ force => force
  | .scoped _ ops _ | .logStep _ _ _ _ _ ops _ _ | .timed _ ops _ _ => Op.anyForces ops
  | _ => false

/-- Whether one of some operations forces a configuration of logging. -/
def Op.anyForces : List Op → Bool
  | [] => false
  | op :: rest => op.forces || Op.anyForces rest
end

/-- A relation between states of logging that the use of loggers stays within. -/
structure Logging.Regime where
  holds : Logging → Logging → Prop
  used : ∀ {l l' : Logging}, l.Used l' → holds l l'
  trans : ∀ {a b c : Logging}, holds a b → holds b c → holds a c

namespace Work
variable {α β : Type} {R : Logging.Regime}

/-- Whether work stays within a regime if the answers to its requests do no more than to use loggers. -/
def Abides (R : Logging.Regime) (w : Work α) : Prop :=
  ∀ σ : Service, (∀ r (m : Machine), m.logging.Used (σ r m).2.logging) →
    ∀ m : Machine, R.holds m.logging (w σ m).2.logging

theorem Heeds.abides {w : Work α} (h : w.Heeds .logging) : w.Abides R := fun _ hσ m => R.used (h.used hσ m)

theorem abides_bind {w : Work α} {f : α → Work β} (hw : w.Abides R) (hf : ∀ a, (f a).Abides R) :
    (w >>= f).Abides R := by
  intro σ hσ m
  have h := hw σ hσ m
  change R.holds m.logging (Work.bind w f σ m).2.logging
  unfold Work.bind
  rcases hr : w σ m with ⟨a | e | _, m'⟩ <;> rw [hr] at h
  · exact R.trans h (hf a σ hσ m')
  · exact h
  · exact h

theorem abides_attempt {w : Work α} (hw : w.Abides R) : (attempt w).Abides R := by
  intro σ hσ m
  have h := hw σ hσ m
  unfold attempt
  rcases hr : w σ m with ⟨a | e | _, m'⟩ <;> rw [hr] at h <;> exact h

theorem abides_withinScope (values : Table Value) {w : Work α} (hw : w.Abides R) : (withinScope values w).Abides R := by
  refine abides_bind heeds_machine.abides fun m => abides_bind (heeds_pushScope _).abides fun token => ?_
  refine abides_bind (abides_attempt hw) fun result => ?_
  cases result <;> exact Heeds.abides (by grind)

/-! ### Configuring -/

/-- What a configuration may do: to use loggers, then to arrange the configuration, then to use loggers. -/
theorem abides_configureBy (harrange : ∀ (l : Logging) level format families,
    R.holds l (l.arrange level format families).2) (settings : Settings) (level format families : Value) :
    (configureBy settings level format families).Abides R := by
  refine abides_bind (heeds_word _ _ _ _).abides fun level => abides_bind (heeds_word _ _ _ _).abides fun format => ?_
  refine abides_bind (heeds_filtered _ _).abides fun families => ?_
  dsimp only
  have harranged (level : String) (format : LogFormat) {w : Machine → Work Unit}
      (hw : ∀ m, (w m).Heeds .logging) : Work.Abides R (do
        let m ← machine
        modify fun m' => { m' with logging := (m.logging.arrange level format families).2 }
        w m) := by
    intro σ hσ m
    exact R.trans (harrange m.logging level format families)
      ((hw m).abides σ hσ { m with logging := (m.logging.arrange level format families).2 })
  split
  · refine harranged _ _ fun m => ?_
    split <;> grind
  · refine harranged _ _ fun m => ?_
    grind

theorem abides_configureLogging (level format families : Value) (force : Bool)
    (hconfigure : ∀ settings, (configureBy settings level format families).Abides R) :
    (configureLogging level format families force).Abides R := by
  refine abides_bind heeds_machine.abides fun m => ?_
  extract_lets seen
  have hseen (u : Unit) : (seen u).Abides R :=
    abides_bind heeds_machine.abides fun _ => (heeds_pure _).abides
  split
  · refine abides_bind (heeds_readSettings _).abides fun settings => ?_
    split
    · exact abides_bind (heeds_fail _).abides hseen
    · exact abides_bind (heeds_fail _).abides hseen
    · exact abides_bind (heeds_fail _).abides hseen
    · exact abides_bind (hconfigure _) hseen
  · exact hseen ()

/-! ### Performing -/

theorem abides_observed {w : Work Datum} (hw : w.Abides R) : (observed w).Abides R := by
  refine abides_bind (heeds_inspect _).abides fun outer => ?_
  refine abides_bind (heeds_modify fun _ => Frame.logging.beside rfl rfl rfl).abides fun _ => ?_
  refine abides_bind (abides_attempt hw) fun result => Heeds.abides ?_
  refine heeds_bind (heeds_resultOf _) fun fields => heeds_bind (heeds_inspect _) fun events => ?_
  exact heeds_bind (heeds_modify fun _ => Frame.logging.beside rfl rfl rfl) fun _ => heeds_pure _

theorem abides_simple (op : Op)
    (hconfigure : ∀ level format families, (configureLogging level format families false).Abides R)
    (hforced : op.forces = true → ∀ level format families, (configureLogging level format families true).Abides R) :
    (simple op).Abides R := by
  by_cases h : ∃ level format families force, op = .configure level format families force
  · obtain ⟨level, format, families, force, rfl⟩ := h
    refine abides_bind (heeds_evaluate _ _).abides fun level => abides_bind (heeds_evaluate _ _).abides fun format => ?_
    refine abides_bind (heeds_evaluate _ _).abides fun families => ?_
    cases force with
    | false => exact hconfigure level format families
    | true => exact hforced rfl level format families
  · refine (heeds_simple fun level format families force hop => h ?_).abides
    exact ⟨level, format, families, force, hop⟩

/-- A step that is logged, once what it is opened with is known. -/
theorem abides_logStep (event : Value) (start level : Value) (rest : Table Value) (metrics : Table Value)
    (raised id : Option String) {inside : Work (List Datum)} (hinside : inside.Abides R) : Work.Abides R (do
      let step ← openStep event start level rest
      let (context, inner) ← closeStep step (← attempt do
        registerAs id (.span step.span)
        let bag := ((← store).span step.span).metrics
        let _ ← each (fun e => setItem bag (.str e.1) e.2) metrics
        let context ← seeContext (← machine).scope.fields
        let inner ← inside
        raiseNamed raised
        return (context, inner))
      return Datum.obj [("ctx", context), ("inner", .arr inner), ("span", ← seeSpan step.span)]) := by
  refine abides_bind (heeds_openStep _ _ _ _).abides fun step => ?_
  refine abides_bind (abides_attempt ?_) fun result => abides_bind (heeds_closeStep _ _).abides fun closed => ?_
  · refine abides_bind (heeds_registerAs _ _).abides fun _ => abides_bind heeds_store.abides fun s => ?_
    refine abides_bind (heeds_each (fun e => heeds_setItem _ _ _) _).abides fun _ => ?_
    refine abides_bind heeds_machine.abides fun m => abides_bind (heeds_seeContext _).abides fun context => ?_
    exact abides_bind hinside fun inner => abides_bind (heeds_raiseNamed _).abides fun _ => (heeds_pure _).abides
  · exact abides_bind (heeds_seeSpan _).abides fun _ => (heeds_pure _).abides

mutual
theorem abides_perform (logs : Bool)
    (hconfigure : ∀ level format families, (configureLogging level format families false).Abides R) (op : Op)
    (hforced : op.forces = true → ∀ level format families, (configureLogging level format families true).Abides R) :
    (perform logs op).Abides R := by
  cases op with
  | «scoped» values ops raised =>
    have hinner := abides_performAll logs hconfigure ops hforced
    refine abides_bind (heeds_evaluateFields _ _).abides fun values => ?_
    refine abides_bind (heeds_refuseSelf _ _).abides fun _ => abides_withinScope values ?_
    refine abides_bind heeds_machine.abides fun m => abides_bind (heeds_seeContext _).abides fun context => ?_
    refine abides_bind hinner fun inner => abides_bind heeds_machine.abides fun m => ?_
    exact abides_bind (heeds_raiseNamed _).abides fun _ => (heeds_pure _).abides
  | logStep event logStart level values metrics ops raised id =>
    have hinner := abides_performAll logs hconfigure ops hforced
    refine abides_bind (heeds_evaluateFields _ _).abides fun values => ?_
    refine abides_bind (heeds_evaluateFields _ _).abides fun metrics => ?_
    extract_lets rest leveled
    have hleveled (level : Option Value) : (leveled level).Abides R := by
      refine abides_bind (heeds_evaluate _ _).abides fun event => ?_
      extract_lets asked level started opened
      have hstarted (start : Value) : (started start).Abides R := abides_logStep _ _ _ _ _ _ _ hinner
      have hopened (u : Unit) : (opened u).Abides R := by
        unfold opened
        split <;> exact abides_bind (heeds_pure _).abides hstarted
      split
      · exact abides_bind (heeds_fail _).abides hopened
      · exact hopened ()
    split
    · exact abides_bind (heeds_evaluate _ _).abides fun _ => abides_bind (heeds_pure _).abides hleveled
    · exact abides_bind (heeds_pure _).abides hleveled
  | timed step ops raised id =>
    have hinner := abides_performAll logs hconfigure ops hforced
    refine abides_bind (heeds_evaluate _ _).abides fun step => abides_bind (heeds_newSpan _ _).abides fun i => ?_
    refine abides_bind (abides_attempt ?_) fun result => ?_
    · refine abides_bind (heeds_registerAs _ _).abides fun _ => abides_bind hinner fun inner => ?_
      exact abides_bind (heeds_raiseNamed _).abides fun _ => (heeds_pure _).abides
    · refine abides_bind (heeds_stopSpan _).abides fun _ => abides_bind (heeds_release _).abides fun inner => ?_
      exact abides_bind (heeds_seeSpan _).abides fun _ => (heeds_pure _).abides
  | _ => exact abides_simple _ hconfigure hforced

theorem abides_performAll (logs : Bool)
    (hconfigure : ∀ level format families, (configureLogging level format families false).Abides R) (ops : List Op)
    (hforced : Op.anyForces ops = true → ∀ level format families,
      (configureLogging level format families true).Abides R) : (performAll logs ops).Abides R := by
  cases ops with
  | nil => exact (heeds_pure _).abides
  | cons op rest =>
    have hop := abides_perform logs hconfigure op fun h => hforced (by simp [Op.anyForces, h])
    have hrest := abides_performAll logs hconfigure rest fun h => hforced (by simp [Op.anyForces, h])
    refine abides_bind (abides_observed hop) fun fields => abides_bind (heeds_takeLogs _).abides fun _ => ?_
    exact abides_bind hrest fun _ => (heeds_pure _).abides
end

/-- A script stays within a regime, in a loop or not, if the configurations that it forces do. -/
theorem abides_performScript (logs inLoop : Bool)
    (hconfigure : ∀ level format families, (configureLogging level format families false).Abides R) (ops : List Op)
    (hforced : Op.anyForces ops = true → ∀ level format families,
      (configureLogging level format families true).Abides R) : (performScript logs inLoop ops).Abides R := by
  induction ops with
  | nil => exact (heeds_pure _).abides
  | cons op rest ih =>
    have hop := abides_perform logs hconfigure op fun h => hforced (by simp [Op.anyForces, h])
    have hrest := ih fun h => hforced (by simp [Op.anyForces, h])
    refine abides_bind (abides_observed hop) fun fields => ?_
    extract_lets told
    have htold (late : List Datum) : (told late).Abides R := by
      refine abides_bind (heeds_takeLogs _).abides fun _ => ?_
      exact abides_bind hrest fun _ => (heeds_pure _).abides
    split
    · refine abides_bind (heeds_drain _).abides fun _ => abides_bind heeds_machine.abides fun m => ?_
      refine abides_bind (heeds_modify fun _ => Frame.logging.beside rfl rfl rfl).abides fun _ => ?_
      exact abides_bind (heeds_pure _).abides htold
    · exact abides_bind (heeds_pure _).abides htold

end Work
end Treeworks
