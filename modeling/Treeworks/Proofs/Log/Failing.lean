import Treeworks.Proofs.Log.Reconfiguration
import Treeworks.Proofs.Slot.Resolve

/-! What a call of `configureLogging` that fails leaves behind. Up to the moment at which its level is looked up it
changes nothing. With families to be let through the level is looked up first; without any the chain has been replaced
by then, while the flag and the levels of the stream are as they were. -/
namespace Treeworks

namespace Logging
variable {l : Logging} {level : String} {format : LogFormat} {families : Option Elements}

/-- What an unknown level leaves behind: without families the chain is there already. -/
def overtaken (l : Logging) (format : LogFormat) (families : Option Elements) : Logging :=
  if families.isSome then l else { l with chain := some ⟨none, format⟩ }

/-- An unknown level is not arranged. -/
theorem arrange_of_unknown (h : level? level = none) :
    l.arrange level format families = (.error (.lacksKey level), l.overtaken format families) := by
  unfold arrange overtaken
  rw [h]
  cases families <;> rfl

/-- What cannot be arranged has a level that is unknown. -/
theorem unknown_of_arrange {failure : Failure} (h : (l.arrange level format families).1 = .error failure) :
    level? level = none := by
  cases hlevel : level? level with
  | none => rfl
  | some threshold =>
    rw [(l.follows_arrange hlevel format families).1] at h
    cases h

end Logging

namespace Work
variable {α β : Type} {m m' m'' : Machine} {σ : Service} {e : Value}

/-- A failure does nothing to logging. -/
theorem raises_fail_beside (failure : Failure) (m : Machine) :
    ∃ e m', (fail failure : Work α).Raises m e m' ∧ m'.logging = m.logging := ⟨_, _, fun _ => rfl, rfl⟩

/-! ### What is asked for, and what is arranged -/

/-- What a configuration is asked for: a level, a format, and the families of a filter. -/
def asked (settings : Settings) (level format families : Value) : Work (Value × LogFormat × Option Elements) := do
  let level ← word level settings.logLevel "upper" Text.upper
  let format ← word format settings.logFormat "lower" Text.lower
  let families ← filtered families settings.debugProcessors
  return (level, if format = .str "json" then .data else .console, families)

/-- Arranges what was asked for. Only a text names a level. -/
def arranged (level : Value) (format : LogFormat) (families : Option Elements) : Work Unit := do
  match level with
  | .str level =>
    let (result, logging) := (← machine).logging.arrange level format families
    modify fun m => { m with logging := logging }
    match result with
    | .error failure => fail failure
    | .ok () => return ()
  | v =>
    let (_, logging) := (← machine).logging.arrange "" format families
    modify fun m => { m with logging := logging }
    let _ ← elementNumber v
    fail (.lacksKey v.keyText)

theorem configureBy_eq (settings : Settings) (level format families : Value) :
    configureBy settings level format families =
      asked settings level format families >>= fun a => arranged a.1 a.2.1 a.2.2 := by
  unfold asked
  simp only [bind_assoc]
  rfl

theorem heeds_asked {F : Frame} (settings : Settings) (level format families : Value) :
    (asked settings level format families).Heeds F := by
  refine heeds_bind (heeds_word _ _ _ _) fun level => heeds_bind (heeds_word _ _ _ _) fun format => ?_
  exact heeds_bind (heeds_filtered _ _) fun families => heeds_pure _

/-- An arrangement that fails has met an unknown level. -/
theorem arranged_raised {level : Value} {format : LogFormat} {families : Option Elements}
    (hσ : ∀ r (m : Machine), m.logging.Used (σ r m).2.logging)
    (h : arranged level format families σ m = (.raised e, m')) :
    (m.logging.overtaken format families).Used m'.logging := by
  unfold arranged at h
  dsimp only at h
  split at h
  · rename_i text
    rw [machine_bind, modify_bind] at h
    cases hresult : (m.logging.arrange text format families).1 with
    | ok =>
      rw [hresult] at h
      cases h
    | error failure =>
      rw [hresult, Logging.arrange_of_unknown (Logging.unknown_of_arrange hresult)] at h
      cases h
      exact .refl _
  · rw [machine_bind, modify_bind, Logging.arrange_of_unknown (by decide)] at h
    dsimp only at h
    have hused := (heeds_bind (heeds_elementNumber level) fun _ => heeds_fail (α := Unit) (.lacksKey level.keyText)).used
      hσ { m with logging := m.logging.overtaken format families }
    rw [h] at hused
    exact hused

/-- Whether a call replaces the chain before it looks its level up: its settings can be read, and it is asked for a
format without families. -/
def Overtakes (level format families : Value) (σ : Service) (m : Machine) (asked' : LogFormat) : Prop :=
  ∃ settings m₁ word m₂, readSettings [] σ m = (.done (.ok settings), m₁) ∧
    asked settings level format families σ m₁ = (.done (word, asked', none), m₂)

theorem Overtakes.unique {level format families : Value} {f f' : LogFormat} (h : Overtakes level format families σ m f)
    (h' : Overtakes level format families σ m f') : f = f' := by
  obtain ⟨settings, m₁, w, m₂, hread, hasked⟩ := h
  obtain ⟨settings', m₁', w', m₂', hread', hasked'⟩ := h'
  rw [hread] at hread'
  cases hread'
  rw [hasked] at hasked'
  cases hasked'
  rfl

/-- A call that fails has replaced the chain, or it has done no more than to use loggers. -/
theorem configureLogging_raised {level format families : Value} {force : Bool}
    (hσ : ∀ r (m : Machine), m.logging.Used (σ r m).2.logging)
    (h : configureLogging level format families force σ m = (.raised e, m')) :
    (∃ l f, Overtakes level format families σ m f ∧ m.logging.Used l ∧ (l.overtaken f none).Used m'.logging) ∨
      (∀ f, ¬ Overtakes level format families σ m f) ∧ m.logging.Used m'.logging := by
  unfold configureLogging at h
  rw [machine_bind] at h
  split at h
  rotate_left
  · cases h
  have hread := (heeds_readSettings []).used hσ m
  rcases of_bind_raised h with hraised | ⟨read, m₁, hreads, h₁⟩
  · refine .inr ⟨fun f => ?_, by rwa [hraised] at hread⟩
    rintro ⟨settings, m₁, word, m₂, hreads, -⟩
    rw [hraised] at hreads
    cases hreads
  rw [hreads] at hread
  -- Faulty settings are refused at once.
  have hrefused (failure : Failure) (hfault : ∀ settings, read ≠ .ok settings)
      (h₁ : ((fail failure : Work Unit) >>= fun _ => do return seeLogging (← machine).logging) σ m₁ = (.raised e, m')) :
      (∀ f, ¬ Overtakes level format families σ m f) ∧ m.logging.Used m'.logging := by
    refine ⟨fun f => ?_, ?_⟩
    · rintro ⟨settings, m₂, word, m₃, hreads', -⟩
      rw [hreads] at hreads'
      cases hreads'
      exact hfault settings rfl
    · cases h₁
      exact hread
  match read, h₁ with
  | .error .unreadable, h₁ => exact .inr (hrefused _ nofun h₁)
  | .error .tooDeep, h₁ => exact .inr (hrefused _ nofun h₁)
  | .error (.invalid _), h₁ => exact .inr (hrefused _ nofun h₁)
  | .ok settings, h₁ =>
    rcases of_bind_raised h₁ with hraised | ⟨_, m₂, -, hseen⟩
    rotate_left
    · cases hseen
    rw [configureBy_eq] at hraised
    have hused := (heeds_asked settings level format families).used hσ m₁
    rcases of_bind_raised hraised with hraised | ⟨⟨w, f, listed⟩, m₂, hasked, harranged⟩
    · refine .inr ⟨fun f => ?_, hread.trans (by rwa [hraised] at hused)⟩
      rintro ⟨settings', m₁', word, m₂, hreads', hasked⟩
      rw [hreads] at hreads'
      cases hreads'
      rw [hraised] at hasked
      cases hasked
    · rw [hasked] at hused
      have hend := arranged_raised hσ harranged
      cases listed with
      | none => exact .inl ⟨_, f, ⟨settings, m₁, w, m₂, hreads, hasked⟩, hread.trans hused, hend⟩
      | some listed =>
        refine .inr ⟨fun f' => ?_, (hread.trans hused).trans hend⟩
        rintro ⟨settings', m₁', word, m₂', hreads', hasked'⟩
        rw [hreads] at hreads'
        cases hreads'
        rw [hasked] at hasked'
        cases hasked'

/-! ### Arguments of the kinds that are meant to be given -/

/-- How a call fails whose settings cannot be read. -/
def refusal : SettingsFault → Failure
  | .unreadable => .unreadableSettings
  | .tooDeep => .tooDeep
  | .invalid _ => .invalidSettings

/-- Settings that cannot be read fail a call that takes effect. -/
theorem raises_configureLogging_fault {fault : SettingsFault} {force : Bool} (level format families : Value)
    (heffective : m.logging.configured = false ∨ force = true) (hnone : m.settings = none)
    (hfault : Settings.read m.vars [] = .error fault) : ∃ e m',
      (configureLogging level format families force).Raises m e m' ∧ m'.logging = m.logging := by
  have heffect : (!m.logging.configured || force) = true := by
    rcases heffective with h | h <;> simp [h]
  have hreads : (readSettings []).Gives m (.error fault) m := by
    intro σ
    unfold readSettings
    rw [machine_bind, hnone, hfault]
    rfl
  have hrefused (σ : Service) : configureLogging level format families force σ m =
      ((fail (refusal fault) : Work Unit) >>= fun _ => do return seeLogging (← machine).logging) σ m := by
    unfold configureLogging
    rw [machine_bind, if_pos heffect, hreads.bind_eq]
    cases fault <;> rfl
  obtain ⟨e, m', hraises, hlogging⟩ := raises_fail_beside (α := Unit) (refusal fault) m
  exact ⟨e, m', fun σ => (hrefused σ).trans (hraises.bind _ σ), hlogging⟩

/-- A level that is unknown fails a call that takes effect. -/
theorem raises_configureLogging_unknown {settings : Settings} {level format families : Value} {force : Bool}
    {w f : String} {names : List String} (heffective : m.logging.configured = false ∨ force = true)
    (hsettings : m.ReadsAs settings) (hlevel : askedWord settings.logLevel level = some w)
    (hformat : askedWord settings.logFormat format = some f)
    (hfamilies : AsksFor m.store settings.debugProcessors families names)
    (hunknown : level? (Text.upper w) = none) : ∃ e m',
      (configureLogging level format families force).Raises m e m' ∧ m'.logging =
        if names = [] then { m.logging with chain := some ⟨none, if Text.lower f = "json" then .data else .console⟩ }
        else m.logging := by
  have heffect : (!m.logging.configured || force) = true := by
    rcases heffective with h | h <;> simp [h]
  obtain ⟨m₁, hreads, hlogging, hstore⟩ := gives_readSettings hsettings
  rw [← hstore] at hfamilies
  obtain ⟨m₂, families', hfiltered, hlogging', hempty, -⟩ := gives_filtered hfamilies
  generalize hasked : (if Text.lower f = "json" then LogFormat.data else .console) = asked
  have hgives : (Work.asked settings level format families).Gives m₁ (.str (Text.upper w), asked, families') m₂ := by
    refine (gives_word hlevel "upper" Text.upper m₁).bind ((gives_word hformat "lower" Text.lower m₁).bind ?_)
    refine hfiltered.bind fun σ => ?_
    simp only [Value.str.injEq, hasked]
    rfl
  let m₃ : Machine := { m₂ with logging := m₂.logging.overtaken asked families' }
  obtain ⟨e, m', hfails, hbeside⟩ := raises_fail_beside (α := Unit) (.lacksKey (Text.upper w)) m₃
  have harranged : (arranged (.str (Text.upper w)) asked families').Raises m₂ e m' := by
    intro σ
    unfold arranged
    dsimp only
    rw [machine_bind, modify_bind, Logging.arrange_of_unknown hunknown]
    exact hfails σ
  refine ⟨e, m', fun σ => ?_, ?_⟩
  · unfold configureLogging
    rw [machine_bind, if_pos heffect, hreads.bind_eq]
    dsimp only
    rw [configureBy_eq]
    exact (hgives.raises_bind harranged).bind _ σ
  · rw [hbeside, show m₃.logging = m₂.logging.overtaken asked families' from rfl, hlogging', hlogging, Logging.overtaken]
    by_cases hnames : names = []
    · rw [if_pos hnames, hempty.mpr hnames]
      rfl
    · have hlisted : families'.isSome = true := Option.isSome_iff_ne_none.mpr fun hnone => hnames (hempty.mp hnone)
      rw [if_neg hnames, if_pos hlisted]

/-- A call of `configureLogging` that fails leaves the flag and the levels of the stream as they were. It leaves the
chain as it was too, unless it has read its settings and is asked for no families: then the chain is one for the format
that it is asked for. Of the arguments that are meant to be given a level that is unknown fails a call that takes effect,
as settings do that cannot be read; these change nothing, nor does a level that comes with families. -/
theorem failed_configuration (m : Machine) (level format families : Value) (force : Bool) (depth : Nat) :
    (∀ e m', configureLogging level format families force (service depth) m = (.raised e, m') →
      (m'.logging.configured = m.logging.configured ∧ m'.logging.rootLevel = m.logging.rootLevel ∧
        m'.logging.ownLevel = m.logging.ownLevel) ∧
      (∀ f, Overtakes level format families (service depth) m f → m'.logging.chain = some ⟨none, f⟩) ∧
      (m'.logging.chain = m.logging.chain ↔
        ∀ f, Overtakes level format families (service depth) m f → m.logging.chain = some ⟨none, f⟩)) ∧
    (m.logging.configured = true → force = false →
      ∀ e m', configureLogging level format families force (service depth) m ≠ (.raised e, m')) ∧
    (m.logging.configured = false ∨ force = true →
      (∀ fault, m.settings = none → Settings.read m.vars [] = .error fault → ∃ e m',
        (configureLogging level format families force).Raises m e m' ∧ m'.logging = m.logging) ∧
      ∀ settings w f names, m.ReadsAs settings → askedWord settings.logLevel level = some w →
        askedWord settings.logFormat format = some f → AsksFor m.store settings.debugProcessors families names →
        level? (Text.upper w) = none → ∃ e m',
          (configureLogging level format families force).Raises m e m' ∧ m'.logging =
            if names = [] then
              { m.logging with chain := some ⟨none, if Text.lower f = "json" then .data else .console⟩ }
            else m.logging) := by
  refine ⟨fun e m' h => ?_, ?_, fun heffective => ⟨?_, ?_⟩⟩
  · rcases configureLogging_raised (heeds_service depth) h with ⟨l, f, hovertakes, hused, hend⟩ | ⟨hnever, hused⟩
    · have hchain : m'.logging.chain = some ⟨none, f⟩ := hend.chain
      refine ⟨⟨hend.configured.trans hused.configured, hend.rootLevel.trans hused.rootLevel,
        hend.ownLevel.trans hused.ownLevel⟩, fun f' hf' => hovertakes.unique hf' ▸ hchain, ?_⟩
      rw [hchain, eq_comm]
      exact ⟨fun hsame f' hf' => hovertakes.unique hf' ▸ hsame, fun hall => hall f hovertakes⟩
    · exact ⟨⟨hused.configured, hused.rootLevel, hused.ownLevel⟩, fun f hf => absurd hf (hnever f),
        iff_of_true hused.chain fun f hf => absurd hf (hnever f)⟩
  · rintro hconfigured rfl e m' hraised
    rw [gives_configureLogging_configured hconfigured level format families] at hraised
    cases hraised
  · intro fault hnone hfault
    exact raises_configureLogging_fault level format families heffective hnone hfault
  · intro settings w f names hsettings hlevel hformat hfamilies hunknown
    exact raises_configureLogging_unknown heffective hsettings hlevel hformat hfamilies hunknown

/-- Logging that writes data from the level of debugging on. -/
def verbose : Machine :=
  { Machine.initial false with logging := { Logging.initial with
    configured := true, chain := some ⟨none, .data⟩, rootLevel := 10, ownLevel := 10 } }

/-- A level that is unknown changes nothing when a family is listed. -/
theorem failed_configuration_listing :
    let m : Machine := { verbose with store := (verbose.store.addList [.str "n"]).2 }
    ∃ e m', (configureLogging (.str "loud") (.str "console") (.list m.store.lists.size.pred) true).Raises m e m' ∧
      m'.logging = m.logging := by
  intro m
  obtain ⟨-, -, heffect⟩ :=
    failed_configuration m (.str "loud") (.str "console") (.list m.store.lists.size.pred) true 3
  obtain ⟨e, m', hraises, hlogging⟩ := (heffect (.inr rfl)).2 .standard "loud" "console" ["n"] (.inr ⟨rfl, rfl⟩) rfl rfl
    (.inr rfl) (by decide)
  exact ⟨e, m', hraises, hlogging⟩

/-- Without families the format of a call with an unknown level is in force afterwards. -/
theorem unknown_level_overtaken :
    let failed := configureLogging (.str "loud") (.str "console") .null true (service 3) verbose
    (match failed.1 with | .raised _ => true | _ => false) = true ∧
      (failed.2.logging.chain.map (·.format), verbose.logging.chain.map (·.format)) = (some .console, some .data) := by
  decide +kernel

end Work
end Treeworks
