import Treeworks.Answer
import Treeworks.Proofs.Log.Listed
import Treeworks.Proofs.Log.Operations

/-! Which configuration of logging is in force. A call of `configureLogging` that takes effect arranges chain and levels
as it was asked to, and they stay until one is forced. A logger that was used under an earlier chain keeps that one. -/
namespace Treeworks

/-- Logging that is configured with a threshold, a format and perhaps families, which leave the threshold to their
filter. -/
structure Logging.Follows (l : Logging) (threshold : Nat) (format : LogFormat) (families : Option Elements) : Prop where
  configured : l.configured = true
  chain : l.chain = some ⟨families.map (⟨·, threshold⟩), format⟩
  rootLevel : l.rootLevel = if families.isSome then 10 else threshold
  ownLevel : l.ownLevel = if families.isSome then 10 else threshold

/-- Whether settings are the ones that are read next: those that are kept, or else those of the environment. -/
def Machine.ReadsAs (m : Machine) (settings : Settings) : Prop :=
  m.settings = some settings ∨ m.settings = none ∧ Settings.read m.vars [] = .ok settings

/-- Once it is configured, logging may be used. -/
def Logging.Regime.settled : Logging.Regime where
  holds l l' := l.configured = true → l.Used l'
  used h _ := h
  trans h h' hl := (h hl).trans (h' ((h hl).configured.trans hl))

/-- What a logger keeps it keeps. -/
def Logging.Regime.keeping : Logging.Regime where
  holds l l' := ∀ logger c, l.kept.get? logger = some c → l'.kept.get? logger = some c
  used h logger c hc := by
    rcases h.kept logger with hl | ⟨hl, -⟩
    · rw [hl, hc]
    · rw [hl] at hc
      cases hc
  trans h h' logger c hc := h' logger c (h logger c hc)

namespace Logging
variable {l l' : Logging}

theorem Follows.of_used {threshold : Nat} {format : LogFormat} {families : Option Elements}
    (h : l.Follows threshold format families) (hused : l.Used l') : l'.Follows threshold format families where
  configured := hused.configured.trans h.configured
  chain := hused.chain.trans h.chain
  rootLevel := hused.rootLevel.trans h.rootLevel
  ownLevel := hused.ownLevel.trans h.ownLevel

/-- The chain that a logger uses is the one that it keeps, or else the one in force. -/
theorem chainOf_fst (l : Logging) (logger : String) : (l.chainOf logger).1 = (l.kept.get? logger).or l.chain := by
  unfold chainOf
  split
  · rename_i c hkept
    rw [hkept]
    rfl
  · rename_i hkept
    rw [hkept]
    split <;> simp_all

/-- The use of loggers does not change which chain one uses. -/
theorem Used.chainOf_fst (h : l.Used l') (logger : String) : (l'.chainOf logger).1 = (l.chainOf logger).1 := by
  rw [Logging.chainOf_fst, Logging.chainOf_fst, h.chain]
  rcases h.kept logger with hl | ⟨hl, hl'⟩
  · rw [hl]
  · rw [hl, hl']
    cases l.chain <;> rfl

/-- What is arranged is what was asked for, if the level is known. -/
theorem follows_arrange (l : Logging) {level : String} {threshold : Nat} (h : level? level = some threshold)
    (format : LogFormat) (families : Option Elements) :
    (l.arrange level format families).1 = .ok () ∧
      (l.arrange level format families).2.Follows threshold format families := by
  unfold arrange
  rw [h]
  cases families <;> exact ⟨rfl, rfl, rfl, rfl, rfl⟩

theorem kept_arrange (l : Logging) (level : String) (format : LogFormat) (families : Option Elements) :
    (l.arrange level format families).2.kept = l.kept := by
  unfold arrange
  split <;> rfl

/-- Only a known level is arranged. -/
theorem level_of_arrange {level : String} {format : LogFormat} {families : Option Elements}
    (h : (l.arrange level format families).1 = .ok ()) : ∃ threshold, level? level = some threshold := by
  unfold arrange at h
  split at h <;> grind

end Logging

namespace Work
variable {α β : Type} {m m' m'' : Machine} {σ : Service}

theorem of_attempt_ok {w : Work α} {a : α} (h : attempt w σ m = (.done (.ok a), m')) : w σ m = (.done a, m') := by
  unfold attempt at h
  rcases hw : w σ m with ⟨b | e | _, m''⟩ <;> rw [hw] at h <;> cases h
  rfl

/-- A configuration that returns has arranged what was asked for. -/
theorem configureBy_done {settings : Settings} {level format families : Value} {u : Unit}
    (hσ : ∀ r (m : Machine), m.logging.Used (σ r m).2.logging)
    (h : configureBy settings level format families σ m = (.done u, m')) :
    ∃ l threshold format' families', m.logging.Used l ∧ m'.logging.kept = l.kept ∧
      m'.logging.Follows threshold format' families' := by
  obtain ⟨level', m₁, hlevel, hformats⟩ := of_bind_done h
  obtain ⟨format', m₂, hformat, hfilters⟩ := of_bind_done hformats
  obtain ⟨families', m₃, hfamilies, harranges⟩ := of_bind_done hfilters
  have hused : m.logging.Used m₃.logging := by
    have h₁ := (heeds_word level settings.logLevel "upper" Text.upper).used hσ m
    have h₂ := (heeds_word format settings.logFormat "lower" Text.lower).used hσ m₁
    have h₃ := (heeds_filtered families settings.debugProcessors).used hσ m₂
    rw [hlevel] at h₁
    rw [hformat] at h₂
    rw [hfamilies] at h₃
    exact h₁.trans (h₂.trans h₃)
  dsimp only at harranges
  generalize (if format' = .str "json" then LogFormat.data else .console) = asked at harranges
  split at harranges
  · rename_i text
    rw [machine_bind, modify_bind] at harranges
    cases hresult : (m₃.logging.arrange text asked families').1 with
    | error failure =>
      rw [hresult] at harranges
      exact absurd harranges (not_fail_done failure)
    | ok =>
      rw [hresult] at harranges
      obtain ⟨threshold, hknown⟩ := Logging.level_of_arrange hresult
      cases harranges
      exact ⟨m₃.logging, threshold, asked, families', hused, Logging.kept_arrange _ _ _ _,
        (Logging.follows_arrange m₃.logging hknown asked families').2⟩
  · rw [machine_bind, modify_bind] at harranges
    obtain ⟨-, m₄, -, hfails⟩ := of_bind_done harranges
    exact absurd hfails (not_fail_done _)

/-! ### Arguments of the kinds that are meant to be given -/

/-- The word that an argument asks for: a text that is not empty, or else the one of the settings. -/
def askedWord (standard : String) : Value → Option String
  | .null => some standard
  | .str t => some (if t = "" then standard else t)
  | _ => none

/-- The families that an argument asks for: those of a collection of texts, or else the ones of the settings. -/
def AsksFor (s : Store) (standard : List String) (families : Value) (names : List String) : Prop :=
  families = .null ∧ names = standard ∨ s.elements? families = some (names.map .str)

theorem gives_word {asked : Value} {standard w : String} (h : askedWord standard asked = some w) (method : String)
    (fold : String → String) (m : Machine) : (word asked standard method fold).Gives m (.str (fold w)) m := by
  unfold askedWord at h
  split at h
  · cases h
    exact (gives_trueOr_of_isScalar rfl _ m).bind fun _ => rfl
  · rename_i t
    cases h
    refine (gives_trueOr_of_isScalar rfl _ m).bind fun _ => ?_
    by_cases ht : t = ""
    · subst ht
      rfl
    · have htruthy : m.store.truthy (.str t) = true := by
        simp [Store.truthy, Store.length?, Store.elements?, Text.symbols_eq_nil, ht]
      simp only [htruthy, if_neg ht]
      rfl
  · cases h

/-- A collection counts as true if there is something in it. -/
theorem gives_truth_of_elements {v : Value} {vs : List Value} (h : m.store.elements? v = some vs) :
    (truth v).Gives m (decide (vs ≠ [])) m := by
  have hinstance : m.store.instance? v = none := by
    cases v <;> first | rfl | cases h
  have hspecial (name : String) : (special? v name).Gives m none m := by
    refine (gives_store m).bind fun σ => ?_
    rw [hinstance]
    rfl
  have hlength : m.store.length? v = some vs.length := by
    cases v with
    | list i =>
      cases h
      exact congrArg some Array.length_toList.symm
    | _ => exact congrArg (Option.map List.length) h
  have htruthy : m.store.truthy v = decide (vs ≠ []) := by
    have hall : (m.store.length? v).all (· ≠ 0) = decide (vs ≠ []) := by
      rw [hlength]
      simp
    cases v <;> first | exact hall | cases h
  refine (hspecial "__bool__").bind ?_
  rw [← htruthy]
  cases v <;> first
    | exact (hspecial "__len__").bind fun _ => rfl
    | cases h

theorem gives_filtered {families : Value} {standard names : List String} (h : AsksFor m.store standard families names) :
    ∃ m' families', (filtered families standard).Gives m families' m' ∧ m'.logging = m.logging ∧
      (families' = none ↔ names = []) ∧ ∀ e, families' = some e → e.Lists names := by
  -- Whether families are there is all that is asked of the collection; then they are made a set of.
  have hmade {m : Machine} {v : Value} (hv : m.store.elements? v = some (names.map .str)) : ∃ families',
      (do if ← truth v then return some (← elementsOf (← elements v)) else return none : Work (Option Elements)).Gives
        m families' m ∧ (families' = none ↔ names = []) ∧ ∀ e, families' = some e → e.Lists names := by
    by_cases hnames : names = []
    · refine ⟨none, (gives_truth_of_elements hv).bind ?_, by simp [hnames], by simp⟩
      simp [hnames, gives_pure]
    · obtain ⟨e, he, hgives⟩ := gives_elementsOf_names names m
      refine ⟨some e, (gives_truth_of_elements hv).bind ?_, by simp [hnames], by simp [he]⟩
      have helements : (elements v).Gives m (names.map .str) m := by
        refine (gives_query _ m).bind fun _ => ?_
        rw [hv]
        rfl
      simpa [hnames] using helements.bind (hgives.bind (gives_pure (some e) m))
  rcases h with ⟨rfl, rfl⟩ | hv
  · let m₁ : Machine := { m with store := (m.store.addList (names.map .str)).2 }
    have hnew : m₁.store.elements? (.list m.store.lists.size) = some (names.map .str) := by
      simp [m₁, Store.elements?, Store.list, Store.addList]
    obtain ⟨families', hgives, hrest⟩ := hmade hnew
    have hlist : (newList (names.map .str)).Gives m (.list m.store.lists.size) m₁ := fun _ => rfl
    exact ⟨m₁, families', hlist.bind hgives, rfl, hrest⟩
  · obtain ⟨families', hgives, hrest⟩ := hmade hv
    have hgiven : families ≠ .null := by
      rintro rfl
      cases hv
    refine ⟨m, families', ?_, rfl, hrest⟩
    unfold filtered
    rw [if_neg hgiven]
    exact (gives_pure families m).bind hgives

theorem gives_readSettings {settings : Settings} (h : m.ReadsAs settings) :
    ∃ m', (readSettings []).Gives m (.ok settings) m' ∧ m'.logging = m.logging ∧ m'.store = m.store := by
  rcases h with hkept | ⟨hnone, hread⟩
  · refine ⟨m, fun σ => ?_, rfl, rfl⟩
    unfold readSettings
    rw [machine_bind, hkept]
    rfl
  · refine ⟨{ m with settings := some settings }, fun σ => ?_, rfl, rfl⟩
    unfold readSettings
    rw [machine_bind, hnone, hread]
    rfl

/-- A call that takes effect returns if its level is known, and what it was asked for is in force then. -/
theorem gives_configureLogging {settings : Settings} {level format families : Value} {force : Bool} {w f : String}
    {names : List String} {threshold : Nat} (heffective : m.logging.configured = false ∨ force = true)
    (hsettings : m.ReadsAs settings) (hlevel : askedWord settings.logLevel level = some w)
    (hformat : askedWord settings.logFormat format = some f)
    (hfamilies : AsksFor m.store settings.debugProcessors families names)
    (hknown : level? (Text.upper w) = some threshold) : ∃ m' families',
      (configureLogging level format families force).Gives m (seeLogging m'.logging) m' ∧
      m'.logging.Follows threshold (if Text.lower f = "json" then .data else .console) families' ∧
      m'.logging.kept = m.logging.kept ∧ (families' = none ↔ names = []) ∧
      ∀ e, families' = some e → e.Lists names := by
  obtain ⟨m₁, hreads, hlogging, hstore⟩ := gives_readSettings hsettings
  rw [← hstore] at hfamilies
  obtain ⟨m₂, families', hfiltered, hlogging', hempty, hlists⟩ := gives_filtered hfamilies
  generalize hasked : (if Text.lower f = "json" then LogFormat.data else .console) = asked
  obtain ⟨hok, hfollows⟩ := m₂.logging.follows_arrange hknown asked families'
  let m₃ : Machine := { m₂ with logging := (m₂.logging.arrange (Text.upper w) asked families').2 }
  have hby : (configureBy settings level format families).Gives m₁ () m₃ := by
    refine (gives_word hlevel "upper" Text.upper m₁).bind ((gives_word hformat "lower" Text.lower m₁).bind ?_)
    refine hfiltered.bind fun σ => ?_
    simp only [Value.str.injEq, hasked, machine_bind, modify_bind, hok]
    rfl
  refine ⟨m₃, families', fun σ => ?_, hfollows, ?_, hempty, hlists⟩
  · have heffect : (!m.logging.configured || force) = true := by
      rcases heffective with h | h <;> simp [h]
    unfold configureLogging
    rw [machine_bind, if_pos heffect, hreads.bind_eq]
    exact hby.bind (fun _ => rfl) σ
  · exact (Logging.kept_arrange _ _ _ _).trans (congrArg Logging.kept (hlogging'.trans hlogging))

/-- A call that takes effect and returns has arranged a chain with levels that fit it, whatever it was given. -/
theorem configureLogging_done {level format families : Value} {force : Bool} {d : Datum}
    (hσ : ∀ r (m : Machine), m.logging.Used (σ r m).2.logging)
    (heffective : m.logging.configured = false ∨ force = true)
    (h : configureLogging level format families force σ m = (.done d, m')) :
    ∃ threshold format' families', m'.logging.Follows threshold format' families' ∧
      ∀ logger, m'.logging.kept.get? logger = m.logging.kept.get? logger ∨
        m.logging.kept.get? logger = none ∧ m'.logging.kept.get? logger = m.logging.chain := by
  have heffect : (!m.logging.configured || force) = true := by
    rcases heffective with h | h <;> simp [h]
  unfold configureLogging at h
  rw [machine_bind, if_pos heffect] at h
  obtain ⟨read, m₁, hreads, h₁⟩ := of_bind_done h
  have hused := (heeds_readSettings []).used hσ m
  rw [hreads] at hused
  match read, h₁ with
  | .ok settings, h₁ =>
    obtain ⟨u, m₂, hby, h₂⟩ := of_bind_done h₁
    cases h₂
    obtain ⟨l, threshold, format', families', hl, hkept, hfollows⟩ := configureBy_done hσ hby
    exact ⟨threshold, format', families', hfollows, fun logger => hkept ▸ (hused.trans hl).kept logger⟩
  | .error .unreadable, h₁ | .error .tooDeep, h₁ | .error (.invalid _), h₁ =>
    obtain ⟨u, m₂, hfails, -⟩ := of_bind_done h₁
    exact absurd hfails (not_fail_done _)

/-- A call that is not forced has no effect once logging is configured. -/
theorem gives_configureLogging_configured (h : m.logging.configured = true) (level format families : Value) :
    (configureLogging level format families false).Gives m (seeLogging m.logging) m := by
  intro σ
  unfold configureLogging
  rw [machine_bind, h]
  rfl

/-! ### Timed steps -/

/-- A step that logs its start keeps the chain in force; any other keeps none. -/
theorem chain_of_openStep {event logStart level : Value} {values : Table Value} {step : OpenStep}
    (hσ : ∀ r (m : Machine), m.logging.Used (σ r m).2.logging)
    (h : openStep event logStart level values σ m = (.done step, m')) :
    step.chain = none ∨ step.chain = m.logging.chain := by
  obtain ⟨i, m₁, hspan, h₁⟩ := of_bind_done h
  have hused := (heeds_newSpan event (values.filter fun e => !isScopeName e.1)).used hσ m
  rw [hspan] at hused
  rw [machine_bind] at h₁
  obtain ⟨token, m₂, hpush, h₂⟩ := of_bind_done h₁
  obtain ⟨started, m₃, hstarted, h₃⟩ := of_bind_done h₂
  rw [← hused.chain]
  cases started with
  | error e =>
    obtain ⟨-, m₄, -, ⟨⟩⟩ := of_bind_done h₃
  | ok opened =>
    obtain ⟨logs, m₄, -, h₄⟩ := of_bind_done (of_attempt_ok hstarted)
    cases h₃
    split at h₄
    · obtain ⟨nested, m₅, -, h₅⟩ := of_bind_done h₄
      obtain ⟨entry, m₆, -, h₆⟩ := of_bind_done h₅
      obtain ⟨-, m₇, -, h₇⟩ := of_bind_done h₆
      cases h₇
      exact .inr rfl
    · cases h₄
      exact .inl rfl

/-- The chain of the last entry of a step: the one that the step keeps, or else the one in force. -/
theorem gives_stepChain (step : OpenStep) (m : Machine) :
    (stepChain step).Gives m (step.chain.or m.logging.chain) m := by
  intro σ
  unfold stepChain
  cases step.chain <;> rfl

/-! ### Scripts -/

/-- A script that forces no configuration uses loggers at most, once logging is configured. -/
theorem used_performScript (logs inLoop : Bool) {ops : List Op} (hops : Op.anyForces ops = false) (depth : Nat)
    (hm : m.logging.configured = true) :
    m.logging.Used (performScript logs inLoop ops (service depth) m).2.logging := by
  refine abides_performScript (R := .settled) logs inLoop (fun level format families σ hσ m hm => ?_) ops
    (fun h => ?_) (service depth) (heeds_service depth) m hm
  · rw [gives_configureLogging_configured hm level format families σ]
    exact .refl _
  · rw [hops] at h
    cases h

/-- Whatever a script does, loggers keep the chains that they were first used with. -/
theorem kept_performScript (logs inLoop : Bool) (ops : List Op) (depth : Nat) {logger : String} {c : Chain}
    (h : m.logging.kept.get? logger = some c) :
    (performScript logs inLoop ops (service depth) m).2.logging.kept.get? logger = some c := by
  have hconfigure (level format families : Value) (force : Bool) :
      (configureLogging level format families force).Abides .keeping :=
    abides_configureLogging level format families force fun settings =>
      abides_configureBy (fun l level format families logger c h => by rwa [Logging.kept_arrange]) settings _ _ _
  exact abides_performScript logs inLoop (fun level format families => hconfigure level format families false) ops
    (fun _ level format families => hconfigure level format families true) (service depth) (heeds_service depth) m
    logger c h

/-- Whether a script that forces no configuration leads from one machine to another. -/
def Unforced (m m' : Machine) : Prop :=
  ∃ logs inLoop ops depth, Op.anyForces ops = false ∧ m' = (performScript logs inLoop ops (service depth) m).2

/-- A call of `configureLogging` has no effect when logging is configured and nothing forces it. One that has an effect
returns if its level is known, and then threshold, format and families are the ones that it was asked for, by its
arguments or by the settings. They stay as they are through every script that forces no other configuration, and a
logger writes through them just when it keeps no other chain: one that it was used with before it keeps for ever. Timed
steps that are opened later, or that keep no chain, end with entries that are written through them too. -/
theorem configuration_in_force (m : Machine) (level format families : Value) (force : Bool) (depth : Nat) :
    (m.logging.configured = true →
      (configureLogging level format families false).Gives m (seeLogging m.logging) m) ∧
    (m.logging.configured = false ∨ force = true →
      (∀ settings w f names threshold, m.ReadsAs settings → askedWord settings.logLevel level = some w →
        askedWord settings.logFormat format = some f → AsksFor m.store settings.debugProcessors families names →
        level? (Text.upper w) = some threshold → ∃ m₁ listed,
          (configureLogging level format families force).Gives m (seeLogging m₁.logging) m₁ ∧
          m₁.logging.Follows threshold (if Text.lower f = "json" then .data else .console) listed ∧
          m₁.logging.kept = m.logging.kept ∧ (listed = none ↔ names = []) ∧ ∀ e, listed = some e → e.Lists names) ∧
      ∀ d m₁, configureLogging level format families force (service depth) m = (.done d, m₁) →
        (∀ logger, m₁.logging.kept.get? logger = m.logging.kept.get? logger ∨
          m.logging.kept.get? logger = none ∧ m₁.logging.kept.get? logger = m.logging.chain) ∧
        ∃ threshold asked listed, ∀ m₂, Unforced m₁ m₂ →
          m₂.logging.Follows threshold asked listed ∧
          (∀ logger, (m₂.logging.chainOf logger).1 = m₁.logging.chain ↔
            ∀ c, m₁.logging.kept.get? logger = some c → m₁.logging.chain = some c) ∧
          (∀ step : OpenStep, (stepChain step).Gives m₂ (step.chain.or m₁.logging.chain) m₂) ∧
          ∀ event logStart level values step later m₃,
            openStep event logStart level values (service later) m₂ = (.done step, m₃) →
            step.chain = none ∨ step.chain = m₁.logging.chain) ∧
    ∀ logs inLoop ops logger c, m.logging.kept.get? logger = some c →
      ((performScript logs inLoop ops (service depth) m).2.logging.chainOf logger).1 = some c := by
  refine ⟨fun h => gives_configureLogging_configured h level format families, fun heffective => ⟨?_, ?_⟩, ?_⟩
  · intro settings w f names threshold hsettings hlevel hformat hfamilies hknown
    exact gives_configureLogging heffective hsettings hlevel hformat hfamilies hknown
  · intro d m₁ hcall
    obtain ⟨threshold, asked, listed, hfollows, hkept⟩ := configureLogging_done (heeds_service depth) heffective hcall
    refine ⟨hkept, threshold, asked, listed, ?_⟩
    rintro m₂ ⟨logs, inLoop, ops, depth', hops, rfl⟩
    have hused := used_performScript logs inLoop hops depth' hfollows.configured
    refine ⟨hfollows.of_used hused, fun logger => ?_, fun step => ?_, ?_⟩
    · rw [hused.chainOf_fst, Logging.chainOf_fst]
      cases m₁.logging.kept.get? logger <;> simp [eq_comm]
    · rw [← hused.chain]
      exact gives_stepChain step _
    · intro event logStart level values step later m₃ hopen
      rw [← hused.chain]
      exact chain_of_openStep (heeds_service later) hopen
  · intro logs inLoop ops logger c hc
    rw [Logging.chainOf_fst, kept_performScript logs inLoop ops depth hc]
    rfl

/-- A script that configures lines of data, has a file report an error, and then forces the console. -/
def forcedLate : List Op :=
  [.configure (some (.str "DEBUG")) (some (.str "json")) none false, .file "f" none,
    .report .fail "f" (.str "first") .null none,
    .configure (some (.str "DEBUG")) (some (.str "console")) none true]

/-- On the machine that scripts start on, errors alone are asked for as data: that is in force for a logger and for a
step, and a call that is not forced does not change it. Once the logger of files has been used, it keeps its chain. -/
theorem configuration_in_force_initial : ∃ m₁,
    configureLogging (.str "error") (.str "json") .null false (service 3) (Machine.initial false) =
      (.done (seeLogging m₁.logging), m₁) ∧
    m₁.logging.Follows 40 .data none ∧
    (m₁.logging.chainOf "unified.core.vfile").1 = m₁.logging.chain ∧
    (∃ step m₃, openStep (.str "parse") (.bool false) (.str "info") [] (service 3) m₁ = (.done step, m₃) ∧
      (step.chain = none ∨ step.chain = m₁.logging.chain)) ∧
    (configureLogging .null .null .null false).Gives m₁ (seeLogging m₁.logging) m₁ ∧
    ∃ c, ((performScript false false (forcedLate.drop 3) (service 3)
      (performScript false false (forcedLate.take 3) (service 3) (Machine.initial false)).2).2.logging.chainOf
        "unified.core.vfile").1 = some c := by
  obtain ⟨-, heffect, -⟩ := configuration_in_force (Machine.initial false) (.str "error") (.str "json") .null false 3
  obtain ⟨hmeant, hany⟩ := heffect (.inl rfl)
  obtain ⟨m₁, listed, hgives, hfollows, hkept, hnone, -⟩ :=
    hmeant .standard "error" "json" [] 40 (.inr ⟨rfl, rfl⟩) rfl rfl (.inl ⟨rfl, rfl⟩) (by decide)
  obtain rfl := hnone.mpr rfl
  rw [if_pos (by decide)] at hfollows
  obtain ⟨-, threshold, asked, listed, hlater⟩ := hany _ m₁ (hgives (service 3))
  obtain ⟨-, hloggers, -, hsteps⟩ := hlater m₁ ⟨false, false, [], 3, rfl, rfl⟩
  have hnew : ∀ c, m₁.logging.kept.get? "unified.core.vfile" = some c → m₁.logging.chain = some c := by
    rw [hkept]
    rintro c ⟨⟩
  have hm₁ : m₁ = (configureLogging (.str "error") (.str "json") .null false (service 3) (Machine.initial false)).2 := by
    rw [hgives]
  obtain ⟨step, m₃, hopen⟩ : ∃ step m₃,
      openStep (.str "parse") (.bool false) (.str "info") [] (service 3) m₁ = (.done step, m₃) := by
    subst hm₁
    exact ⟨_, _, rfl⟩
  obtain ⟨c, hc⟩ := Option.isSome_iff_exists.mp (show ((performScript false false (forcedLate.take 3) (service 3)
    (Machine.initial false)).2.logging.kept.get? "unified.core.vfile").isSome = true by decide +kernel)
  refine ⟨m₁, hgives _, hfollows, (hloggers _).mpr hnew, ⟨step, m₃, hopen, hsteps _ _ _ _ _ _ _ hopen⟩,
    (configuration_in_force m₁ .null .null .null false 3).1 hfollows.configured, c, ?_⟩
  exact (configuration_in_force _ .null .null .null false 3).2.2 false false (forcedLate.drop 3) _ c hc

/-- The logger of files goes on with lines of data after the console was forced. -/
theorem forced_console_missed :
    ((performScript false false forcedLate (service 3) (Machine.initial false)).2.logging.chain.map (·.format),
      (((performScript false false forcedLate (service 3) (Machine.initial false)).2.logging.chainOf
        "unified.core.vfile").1.map (·.format))) = (some .console, some .data) := by
  decide +kernel

end Work
end Treeworks
