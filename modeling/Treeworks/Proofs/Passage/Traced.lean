import Treeworks.Proofs.Passage.Standing

/-! The moves of a passage that is alone keep its runner as it has to be. -/
namespace Treeworks
variable {site : Site} {c : Nat} {g : Traffic} {k l : Call} {τ : History} {r r' : Runner} {m : Move} {i t n : Nat}

theorem Firm.mono {a : Activation} (h : Firm r k a) (hevolves : r.Evolves r') (hrun : l.run = k.run)
    (hinner : ∀ i, k.inner = some i → l.inner = some i) : Firm r' l a := by
  cases h with
  | step drives hi ht hplain =>
    exact .step drives (hinner _ hi) (Nat.lt_of_lt_of_le ht hevolves.tickets) (by rw [hevolves.stepOf ht]; exact hplain)
  | failed drives hi => exact .failed drives (hinner _ hi)
  | finished drives hi => exact .finished drives (hinner _ hi)
  | stage drives ht hstage hgiven =>
    rw [← hrun]
    refine .stage drives (Nat.lt_of_lt_of_le ht hevolves.tickets) ?_ ?_
    · rw [hevolves.stepOf ht]
      exact hstage
    · rw [(hevolves.ticket _ ht).2.2]
      exact hgiven

/-- What waits for what does not depend on what else is known of a passage. -/
theorem Poised.mono {pending : Option Directive} {stack : List Activation} (h : Poised r k pending stack)
    (hrun : l.run = k.run) (hinner : l.inner = k.inner) (hchore : l.chore = k.chore) : Poised r l pending stack := by
  have hfirm {rest : List Activation} (hrest : ∀ a ∈ rest, Firm r k a) : ∀ a ∈ rest, Firm r l a :=
    fun a ha => (hrest a ha).mono (.refl r) hrun fun i hi => hinner.trans hi
  cases h with
  | seek steps index i hrest => exact .seek steps index i (hfirm hrest)
  | invoke args context hrest ht hcalled hgiven hnone =>
    rw [← hrun]
    exact .invoke args context (hfirm hrest) ht hcalled hgiven (hchore.trans hnone)
  | await v i t hrest => exact .await v i t (hfirm hrest)
  | call done args hrest ha => exact .call done args (hfirm hrest) ha
  | leave hrest ha => exact .leave (hfirm hrest) ha
  | nothing => exact .nothing
  | step drives hrest hi => exact .step drives (hfirm hrest) (hinner.trans hi)
  | compiling drives hrest hcompiling hstep hgiven =>
    rw [← hrun]
    exact .compiling drives (hfirm hrest) (hchore.trans hcompiling) hstep hgiven

namespace Call

/-- A directive that invokes no step notes none. -/
theorem asks_of_ne (k : Call) (r : Runner) {d : Directive} (hd : ∀ step args context, d ≠ .invoke step args context) :
    k.asks r d = k := by
  cases d with
  | invoke step args context => exact absurd rfl (hd step args context)
  | seek | await | call | leave | fail => rfl

/-- Whatever is asked for next, only the first part of a passage may end with it. -/
theorem lands_of_ne (k : Call) (r : Runner) {d : Directive} (hd : ∀ e, d ≠ .fail e) :
    ∃ starting, k.lands r d = { k with starting := starting } := by
  unfold lands
  split
  · exact ⟨k.starting, rfl⟩
  · cases d with
    | fail e => exact absurd rfl (hd e)
    | seek | invoke | await | call | leave => exact ⟨false, rfl⟩

end Call

namespace Site.Traced

/-- The steps that the wares have are those that were registered. -/
theorem stepsOf_eq (h : site.Traced c g k τ) (w : Nat) : site.stepsOf g w = τ.registry site.base w := by
  unfold Site.stepsOf History.registry Site.base
  split
  case isTrue hw => rw [hw, h.registry]
  case isFalse hw => rw [h.stages w hw, List.append_nil]

theorem consistent (h : site.Traced c g k τ) : g.runner.Consistent site.base τ none :=
  Runner.consistent_of_reached h.reached

/-- The run of the stages. -/
theorem outer_run (h : site.Traced c g k τ) : k.run < g.runner.runs.size ∧ (g.runner.run k.run).ware = 0 ∧
    (g.runner.run k.run).inputs = [.passage c] ∧ (g.runner.run k.run).done = .hook (.finish c c) :=
  (h.consistent.started _ _ _ _).mp h.outer

/-- A run of the transformers. -/
theorem inner_run (h : site.Traced c g k τ) {inputs : List Value}
    (hstarted : .started i site.ware inputs (.next t) ∈ τ) : i < g.runner.runs.size ∧
      (g.runner.run i).ware = site.ware ∧ (g.runner.run i).inputs = inputs ∧ (g.runner.run i).done = .next t :=
  (h.consistent.started _ _ _ _).mp hstarted

/-- Every activation is of a run of the passage. -/
theorem isActive (h : site.Traced c g k τ) {a : Activation} {rest : List Activation} (hs : g.runner.stack = a :: rest) :
    k.isActive g.runner = true := by
  have hlt : a.run < g.runner.runs.size := h.consistent.run_lt a (by rw [hs]; exact List.mem_cons_self)
  rw [Call.isActive, hs]
  exact decide_eq_true (h.runs a.run hlt)

end Site.Traced

/-- When a move has ended, what stays on the stack tells whether the library has to go on. -/
theorem poised_leave (hfirm : ∀ a ∈ r.stack, Firm r k a) (hdone : ∀ i, k.inner = some i → ∃ t, (r.run i).done = .next t) :
    Poised r k (r.duty .leave) r.stack := by
  unfold Runner.duty Runner.awaitsLibrary
  dsimp only
  generalize r.stack = l at hfirm ⊢
  cases l with
  | nil => exact .nothing
  | cons a rest =>
    have ha : Firm r k a := hfirm a List.mem_cons_self
    cases ha with
    | @step i t drives hi ht hplain =>
      have hne : (r.stepOf t).callee ≠ .hook .runStage := by
        intro heq
        rw [heq] at hplain
        cases hplain
      simp only [hne, decide_false, Bool.false_eq_true, if_false]
      exact .step drives hfirm hi
    | @failed i drives hi =>
      obtain ⟨t, ht⟩ := hdone i hi
      simp only [ht, if_true]
      exact .leave hfirm (by simp)
    | @finished i drives hi =>
      obtain ⟨t, ht⟩ := hdone i hi
      simp only [ht, if_true]
      exact .leave hfirm (by simp)
    | @stage t drives ht hstage hgiven =>
      simp only [hstage, decide_true, if_true]
      refine .leave hfirm ?_
      rintro i drives' u ⟨⟩
      exact ⟨hstage, hgiven⟩

/-- A directive that invokes no step and lets no error through finds the stack as it has to be. -/
theorem poised_of_puts {d : Directive} {below : List Activation} (hputs : Runner.Puts below d r.stack)
    (hd : Runner.quiet d = true ∨ ∃ done args, d = .call done args) (hfirm : ∀ a ∈ below, Firm r k a)
    (hdone : ∀ i, k.inner = some i → ∃ t, (r.run i).done = .next t) : Poised r k (r.duty d) r.stack := by
  generalize hs : r.stack = l at hputs
  cases hputs with
  | seek steps index i => exact .seek steps index i hfirm
  | await v i t => exact .await v i t hfirm
  | failed done args i drives => exact .call done args hfirm (.inl rfl)
  | finished done args i => exact .call done args hfirm (.inr rfl)
  | leave =>
    rw [← hs] at hfirm ⊢
    exact poised_leave hfirm hdone
  | invoke step args context i t =>
    rcases hd with hd | ⟨done, args', hd⟩
    · cases hd
    · cases hd
  | fail e =>
    rcases hd with hd | ⟨done, args', hd⟩
    · cases hd
    · cases hd

/-- The run of the stages begins. -/
theorem Site.traced_begin (site : Site) (c : Nat) (files : List Value) (hrun : k.run = site.runner.runs.size) (hinner : k.inner = none) (htickets : k.tickets = [])
    (hcrash : k.crash = none) : ∃ starting,
      site.Traced c (Traffic.move { site.initial with files := files } c k (.start 0 [.passage c] (.hook (.finish c c))))
        { k with starting := starting } [.started k.run 0 [.passage c] (.hook (.finish c c))] := by
  obtain ⟨hquiet, hdeeds⟩ := Runner.quiet_start site.runner 0 [.passage c] (.hook (.finish c c))
  have hevolves : ({ site.runner with
      runs := site.runner.runs.push ⟨0, [.passage c], .hook (.finish c c), 0, false, false⟩ } : Runner).Evolves
      (site.runner.react (.start 0 [.passage c] (.hook (.finish c c)))).1 := .advance _ _ false none
  have hreached : Reached site.base (site.runner.react (.start 0 [.passage c] (.hook (.finish c c)))).1
      [.started k.run 0 [.passage c] (.hook (.finish c c))] := by
    have hbegin : Reached site.base site.runner [] := .begin site.runs_eq site.tickets_eq site.stack_eq
    have hmoved := hbegin.move (.start 0 [.passage c] (.hook (.finish c c)))
    rwa [hdeeds, ← hrun] at hmoved
  -- There are no transformers yet, and nothing needs to be shown of their run.
  have hnone {i : Nat} {P : Prop} (hi : k.inner = some i) : P := by
    rw [hinner] at hi
    cases hi
  obtain ⟨starting, hlands⟩ := Call.lands_of_ne k (site.runner.react (.start 0 [.passage c] (.hook (.finish c c)))).1
    (Runner.ne_fail_of_quiet hquiet)
  refine ⟨starting, ?_⟩
  exact {
    call := by
      have hheard : k.heard site.runner (.start 0 [.passage c] (.hook (.finish c c))) = [] := rfl
      simp only [Traffic.move, Site.initial, Function.update_self]
      rw [Call.asks_of_ne _ _ (Runner.ne_invoke_of_quiet hquiet), hheard, List.append_nil, hlands]
    reached := hreached
    registry := (List.append_nil _).symm
    stages := fun w hw => rfl
    steps := hevolves.steps
    context := hevolves.context
    plain := site.plain
    outer := List.mem_cons_self
    inner := fun i hi => hnone hi
    runs := by
      intro i hi
      have hsize : (site.runner.react (.start 0 [.passage c] (.hook (.finish c c)))).1.runs.size = 1 := by
        rw [hevolves.runs, Array.size_push, site.runs_eq]
        rfl
      change i < (site.runner.react (.start 0 [.passage c] (.hook (.finish c c)))).1.runs.size at hi
      rw [hsize] at hi
      refine .inl ((Nat.lt_one_iff.mp hi).trans ?_)
      rw [hrun, site.runs_eq]
      rfl
    tickets := by
      rw [htickets, hinner]
      rfl
    crash := hcrash
    escaped := by
      intro i t e hmem
      simp at hmem
    poised := by
      refine poised_of_puts (Runner.puts_react site.runner _) (.inl hquiet) ?_ fun i hi => hnone hi
      rw [Runner.below, site.stack_eq]
      simp
    finished := fun i done inputs hi => hnone hi }

namespace Site.Traced

/-- A move that begins no run, invokes no step and lets no error through. -/
theorem move (h : site.Traced c g k τ) (hm : g.runner.Admits (τ.registry site.base) m)
    (hbegins : m.begins = false)
    (hd : Runner.quiet (g.runner.react m).2.2 = true ∨ ∃ done args, (g.runner.react m).2.2 = .call done args)
    (hbelow : ∀ a ∈ g.runner.below m, Firm g.runner k a) (hrun : l.run = k.run) (hinner : l.inner = k.inner)
    (htickets : l.tickets = k.tickets) (hcrash : l.crash = k.crash)
    (hfinished : ∀ i done inputs, k.inner = some i → (g.runner.deeds m).reports i = [(done, .null :: inputs)] →
      ∀ a ∈ g.runner.below m, a.run = i → ∀ t, a.wait ≠ .step t) :
    ∃ starting, site.Traced c (g.move c l m)
      { l with responses := l.responses ++ l.heard g.runner m, starting := starting } (τ ++ g.runner.deeds m) := by
  have hevolves : g.runner.Evolves (g.runner.react m).1 := .react _ _ hbegins
  have hinvoke : ∀ step args context, (g.runner.react m).2.2 ≠ .invoke step args context := by
    rcases hd with hd | ⟨done, args, hd⟩
    · exact Runner.ne_invoke_of_quiet hd
    · intro step args context hinvoke
      rw [hd] at hinvoke
      cases hinvoke
  have hfail : ∀ x, (g.runner.react m).2.2 ≠ .fail x := by
    rcases hd with hd | ⟨done, args, hd⟩
    · exact Runner.ne_fail_of_quiet hd
    · intro x hfail
      rw [hd] at hfail
      cases hfail
  have hreached : Reached site.base (g.runner.react m).1 (τ ++ g.runner.deeds m) := .move h.reached hm
  have hconsistent : (g.runner.react m).1.Consistent site.base (τ ++ g.runner.deeds m) none :=
    Runner.consistent_of_reached hreached
  have hdone : ∀ i, l.inner = some i → ∃ t, ((g.runner.react m).1.run i).done = .next t := by
    intro i hi
    obtain ⟨-, inputs, t, hstarted⟩ := h.inner i (hinner ▸ hi)
    exact ⟨t, ((hconsistent.started _ _ _ _).mp (List.mem_append_left _ hstarted)).2.2.2⟩
  have hinner' : ∀ i, k.inner = some i → l.inner = some i := fun i hi => hinner.trans hi
  have hputs := Runner.puts_react g.runner m
  obtain ⟨starting, hlands⟩ := Call.lands_of_ne { l with responses := l.responses ++ l.heard g.runner m }
    (g.runner.react m).1 hfail
  refine ⟨starting, ?_⟩
  exact {
    call := by
      simp only [Traffic.move, Function.update_self]
      rw [Call.asks_of_ne _ _ hinvoke, hlands]
    reached := hreached
    registry := by
      rw [History.registered_append, Runner.registered_deeds, List.append_nil]
      exact h.registry
    stages := by
      intro w hw
      rw [History.registered_append, Runner.registered_deeds, h.stages w hw, List.append_nil]
    steps := hevolves.steps.trans h.steps
    context := fun w => (hevolves.context w).trans (h.context w)
    plain := h.plain
    outer := by
      rw [hrun]
      exact List.mem_append_left _ h.outer
    inner := by
      intro i hi
      obtain ⟨hne, inputs, t, hstarted⟩ := h.inner i (hinner ▸ hi)
      exact ⟨by rw [hrun]; exact hne, inputs, t, List.mem_append_left _ hstarted⟩
    runs := by
      intro i hi
      rw [hrun, hinner]
      exact h.runs i (by rw [← hevolves.runs]; exact hi)
    tickets := by
      have hsame : ∀ i, (τ ++ g.runner.deeds m).tickets i = τ.tickets i := by
        intro i
        rw [History.tickets_append, History.tickets, History.tickets, Runner.invocations_deeds hinvoke, List.map_nil,
          List.append_nil]
      rw [htickets, hinner, h.tickets]
      cases k.inner with
      | none => rfl
      | some i => exact (hsame i).symm
    crash := hcrash.trans h.crash
    escaped := by
      intro i t e hmem
      rcases List.mem_append.mp hmem with hmem | hmem
      · exact h.escaped i t e hmem
      · have hlets := Runner.escaped_mem_deeds hmem
        rw [Runner.lets_of_ne_fail m hfail] at hlets
        cases hlets
    poised := by
      refine poised_of_puts hputs hd ?_ hdone
      intro a ha
      exact (hbelow a ha).mono hevolves hrun hinner'
    finished := by
      intro i done inputs hi hreports a ha hai t hat
      have hki : k.inner = some i := hinner ▸ hi
      have hold : a ∈ g.runner.below m := by
        change a ∈ (g.runner.react m).1.stack at ha
        generalize (g.runner.react m).1.stack = stack at hputs ha
        generalize (g.runner.react m).2.2 = d at hputs hinvoke
        cases hputs with
        | invoke step args context => exact absurd rfl (hinvoke step args context)
        | leave | fail => exact ha
        | seek | await | failed | finished =>
          rcases List.mem_cons.mp ha with rfl | ha
          · cases hat
          · exact ha
      rw [History.reports_append] at hreports
      -- Their end is told of by this move, which leaves no step of theirs on the stack, or it was before.
      by_cases hnew : τ.reports i = []
      · rw [hnew, List.nil_append] at hreports
        exact hfinished i done inputs hki hreports a hold hai t hat
      · have hmem : a ∈ g.runner.stack := by
          cases m with
          | start | next | settled => exact hold
          | found | returned | raised | watching => exact List.mem_of_mem_tail hold
        have hreport : τ.reports i = [(done, .null :: inputs)] := by
          cases hcase : τ.reports i with
          | nil => exact absurd hcase hnew
          | cons x xs =>
            rw [hcase, List.cons_append] at hreports
            obtain ⟨rfl, hrest⟩ := List.cons.inj hreports
            rw [(List.append_eq_nil_iff.mp hrest).1]
        exact h.finished i done inputs hki hreport a hmem hai t hat }

/-- A step is invoked. What that is noted as depends on whether it is a stage. -/
theorem found (h : site.Traced c g k τ) {a : Activation} {rest : List Activation} (hs : g.runner.stack = a :: rest)
    (ha : a.wait = .seeking) {s : Nat}
    (hk : (site.stepsOf g (g.runner.run a.run).ware)[(g.runner.run a.run).index]? = some s)
    (hcall : (g.move c k (.found (some s))).calls c = some l) (hrun : l.run = k.run) (hinner : l.inner = k.inner)
    (htickets : l.tickets = l.inner.elim [] (τ ++ g.runner.deeds (.found (some s))).tickets) (hcrash : l.crash = k.crash)
    (hpoised : Poised (g.runner.react (.found (some s))).1 l (g.move c k (.found (some s))).pending
      (g.runner.react (.found (some s))).1.stack) :
    site.Traced c (g.move c k (.found (some s))) l (τ ++ g.runner.deeds (.found (some s))) := by
  have hevolves : g.runner.Evolves (g.runner.react (.found (some s))).1 := .react _ _ rfl
  obtain ⟨hdirective, hstack, -, hdeeds⟩ := Runner.found_some hs s
  have hadmits : g.runner.Admits (τ.registry site.base) (.found (some s)) := by
    rw [← hk, h.stepsOf_eq]
    exact .found hs ha
  have hmem : a ∈ g.runner.stack := by rw [hs]; exact List.mem_cons_self
  have hgoing : τ.Going a.run (g.runner.run a.run).index :=
    h.consistent.going_of_seeks (h.consistent.run_lt a hmem) ⟨a, hmem, rfl, ha⟩
  exact {
    call := hcall
    reached := .move h.reached hadmits
    registry := by
      rw [History.registered_append, Runner.registered_deeds, List.append_nil]
      exact h.registry
    stages := by
      intro w hw
      rw [History.registered_append, Runner.registered_deeds, h.stages w hw, List.append_nil]
    steps := hevolves.steps.trans h.steps
    context := fun w => (hevolves.context w).trans (h.context w)
    plain := h.plain
    outer := by
      rw [hrun]
      exact List.mem_append_left _ h.outer
    inner := by
      intro i hi
      obtain ⟨hne, inputs, t, hstarted⟩ := h.inner i (hinner ▸ hi)
      exact ⟨by rw [hrun]; exact hne, inputs, t, List.mem_append_left _ hstarted⟩
    runs := by
      intro i hi
      rw [hrun, hinner]
      exact h.runs i (by rw [← hevolves.runs]; exact hi)
    tickets := htickets
    crash := hcrash.trans h.crash
    escaped := by
      intro i t e hmem
      rw [hdeeds] at hmem
      rcases List.mem_append.mp hmem with hmem | hmem
      · exact h.escaped i t e hmem
      · simp at hmem
    poised := hpoised
    finished := by
      intro i done inputs hi hreports b hb hbi t hbt
      rw [hdeeds, History.reports_append, History.reports_singleton] at hreports
      replace hreports : τ.reports i = [(done, .null :: inputs)] := by simpa using hreports
      change b ∈ (g.runner.react (.found (some s))).1.stack at hb
      rw [hstack] at hb
      rcases List.mem_cons.mp hb with rfl | hb
      · -- The run of the new activation is between two steps, so it has not told of its end.
        have hai : a.run = i := hbi
        rw [hai] at hgoing
        rw [hgoing.unreported] at hreports
        cases hreports
      · exact h.finished i done inputs (hinner ▸ hi) hreports b (by rw [hs]; exact List.mem_cons_of_mem a hb) hbi t hbt }

/-- The run of the transformers begins. -/
theorem start (h : site.Traced c g k τ) (inputs : List Value) (t : Nat) (hnone : k.inner = none)
    (hfirm : ∀ a ∈ g.runner.stack, Firm g.runner k a) (hrun : l.run = k.run) (hinner : l.inner = some g.runner.runs.size)
    (htickets : l.tickets = k.tickets) (hcrash : l.crash = k.crash) :
    ∃ starting, site.Traced c (g.move c l (.start site.ware inputs (.next t))) { l with starting := starting }
      (τ ++ [.started g.runner.runs.size site.ware inputs (.next t)]) := by
  obtain ⟨hquiet, hdeeds⟩ := Runner.quiet_start g.runner site.ware inputs (.next t)
  have hevolves : ({ g.runner with runs := g.runner.runs.push ⟨site.ware, inputs, .next t, 0, false, false⟩ } : Runner).Evolves
      (g.runner.react (.start site.ware inputs (.next t))).1 := .advance _ _ false none
  have hreached : Reached site.base (g.runner.react (.start site.ware inputs (.next t))).1
      (τ ++ [.started g.runner.runs.size site.ware inputs (.next t)]) := by
    rw [← hdeeds]
    exact .move h.reached (.start site.ware inputs (.next t))
  have hconsistent := Runner.consistent_of_reached hreached
  have hinvoke := Runner.ne_invoke_of_quiet hquiet
  have hfail := Runner.ne_fail_of_quiet hquiet
  have hstarted : Deed.started g.runner.runs.size site.ware inputs (.next t) ∈
      τ ++ [.started g.runner.runs.size site.ware inputs (.next t)] := by simp
  obtain ⟨starting, hlands⟩ := Call.lands_of_ne l (g.runner.react (.start site.ware inputs (.next t))).1 hfail
  refine ⟨starting, ?_⟩
  exact {
    call := by
      have hheard : l.heard g.runner (.start site.ware inputs (.next t)) = [] := rfl
      simp only [Traffic.move, Function.update_self]
      rw [Call.asks_of_ne _ _ hinvoke, hheard, List.append_nil, hlands]
    reached := hreached
    registry := by
      rw [History.registered_append, History.registered_singleton]
      simp only [History.registration?, Option.toList_none, List.append_nil]
      exact h.registry
    stages := by
      intro w hw
      rw [History.registered_append, History.registered_singleton, h.stages w hw]
      rfl
    steps := hevolves.steps.trans h.steps
    context := fun w => (hevolves.context w).trans (h.context w)
    plain := h.plain
    outer := by
      rw [hrun]
      exact List.mem_append_left _ h.outer
    inner := by
      intro i hi
      have hsize : g.runner.runs.size = i := Option.some.inj (hinner.symm.trans hi)
      subst hsize
      exact ⟨by rw [hrun]; exact Nat.ne_of_gt h.outer_run.1, inputs, t, hstarted⟩
    runs := by
      intro i hi
      have hsize : (g.runner.react (.start site.ware inputs (.next t))).1.runs.size = g.runner.runs.size + 1 := by
        rw [hevolves.runs]
        simp
      change i < (g.runner.react (.start site.ware inputs (.next t))).1.runs.size at hi
      rw [hsize] at hi
      rcases Nat.lt_succ_iff_lt_or_eq.mp hi with hi | rfl
      · rcases h.runs i hi with hi | hi
        · exact .inl (hi.trans hrun.symm)
        · rw [hnone] at hi
          cases hi
      · exact .inr hinner
    tickets := by
      have hfresh : τ.tickets g.runner.runs.size = [] := h.consistent.tickets_of_size_le (Nat.le_refl _)
      rw [hinner, htickets, h.tickets, hnone]
      simp [hfresh]
    crash := hcrash.trans h.crash
    escaped := by
      intro i u e hmem
      rcases List.mem_append.mp hmem with hmem | hmem
      · exact h.escaped i u e hmem
      · simp at hmem
    poised := by
      refine poised_of_puts (Runner.puts_react g.runner _) (.inl hquiet) ?_ ?_
      · intro a ha
        -- What stands on the stack stands as firm with one more run.
        have hfirm' : Firm { g.runner with runs := g.runner.runs.push ⟨site.ware, inputs, .next t, 0, false, false⟩ } k a := by
          cases hfirm a ha with
          | step drives hi ht hplain => exact .step drives hi ht hplain
          | failed drives hi => exact .failed drives hi
          | finished drives hi => exact .finished drives hi
          | stage drives ht hstage hgiven => exact .stage drives ht hstage hgiven
        refine hfirm'.mono hevolves hrun ?_
        intro i hi
        rw [hnone] at hi
        cases hi
      · intro i hi
        have hsize : g.runner.runs.size = i := Option.some.inj (hinner.symm.trans hi)
        subst hsize
        exact ⟨t, ((hconsistent.started _ _ _ _).mp hstarted).2.2.2⟩
    finished := by
      intro i done inputs' hi hreports
      have hsize : g.runner.runs.size = i := Option.some.inj (hinner.symm.trans hi)
      subst hsize
      rw [History.reports_append, h.consistent.unreported _ (Nat.le_refl _)] at hreports
      simp at hreports }

/-- Nothing changes but what is known of the passage, and what the library has to do. -/
theorem put (h : site.Traced c g k τ) (pending : Option Directive) (hrun : l.run = k.run) (hinner : l.inner = k.inner)
    (htickets : l.tickets = k.tickets) (hcrash : l.crash = k.crash)
    (hpoised : Poised g.runner l pending g.runner.stack) :
    site.Traced c { g.put c l with pending := pending } l τ :=
  { h with
    call := by simp only [Traffic.put, Function.update_self]
    outer := by
      rw [hrun]
      exact h.outer
    inner := by
      intro i hi
      rw [hrun]
      exact h.inner i (hinner ▸ hi)
    runs := by
      intro i hi
      rw [hrun, hinner]
      exact h.runs i hi
    tickets := by rw [htickets, hinner, h.tickets]
    crash := hcrash.trans h.crash
    poised := hpoised
    finished := fun i done inputs hi => h.finished i done inputs (hinner ▸ hi) }

/-- Nothing changes but what is known of the passage, when nothing is under way. -/
theorem putIdle (h : site.Traced c g k τ) (hidle : g.Idle) (hrun : l.run = k.run) (hinner : l.inner = k.inner)
    (htickets : l.tickets = k.tickets) (hcrash : l.crash = k.crash) : site.Traced c (g.put c l) l τ := by
  obtain ⟨hs, hpending⟩ := hidle
  refine h.put g.pending hrun hinner htickets hcrash ?_
  rw [hs, hpending]
  exact .nothing

/-- A run of the passage that nothing is on the stack of is not between two steps: no error has stranded it. -/
theorem not_going (h : site.Traced c g k τ) (hi : i < g.runner.runs.size) (hquiet : ∀ a ∈ g.runner.stack, a.run ≠ i) :
    ¬τ.Going i n := by
  intro hgoing
  obtain ⟨hdriving, hseeks⟩ := h.consistent.toTables.not_driving_of_quiet hquiet
  have hready : (g.runner.run i).ready = true := h.consistent.ready_of_going hi hgoing hseeks
  obtain ⟨α, t, e, β, heq, -⟩ := (Runner.idle_iff_stranded h.reached).mp ⟨hready, hdriving⟩
  refine h.escaped i t e ?_
  rw [heq]
  exact List.mem_append_right α List.mem_cons_self

/-- A transformer is registered. -/
theorem register (h : site.Traced c g k τ) {s : Nat} (hs : (site.runner.step s).callee.isHook = false) :
    site.Traced c { g with registry := g.registry ++ [s] } k (τ ++ [.registered site.ware s]) where
  call := h.call
  reached := .register site.ware s h.reached
  registry := by
    rw [History.registered_append, History.registered_singleton, h.registry]
    simp
  stages := by
    intro w hw
    rw [History.registered_append, History.registered_singleton, h.stages w hw]
    simp [Ne.symm hw]
  steps := h.steps
  context := h.context
  plain := by
    intro s' hs'
    rcases List.mem_append.mp hs' with hs' | hs'
    · exact h.plain s' hs'
    · rw [List.mem_singleton.mp hs']
      exact hs
  outer := List.mem_append_left _ h.outer
  inner := by
    intro i hi
    obtain ⟨hne, inputs, t, hstarted⟩ := h.inner i hi
    exact ⟨hne, inputs, t, List.mem_append_left _ hstarted⟩
  runs := h.runs
  tickets := by
    rw [h.tickets]
    cases k.inner with
    | none => rfl
    | some i => simp
  crash := h.crash
  escaped := by
    intro i t e hmem
    rcases List.mem_append.mp hmem with hmem | hmem
    · exact h.escaped i t e hmem
    · simp at hmem
  poised := h.poised
  finished := by
    intro i done inputs hi hreports
    refine h.finished i done inputs hi ?_
    simpa using hreports

/-- Every run of the transformers reports to a continuation. -/
theorem done_next (h : site.Traced c g k τ) (hi : k.inner = some i) : ∃ t, (g.runner.run i).done = .next t := by
  obtain ⟨-, inputs, t, hstarted⟩ := h.inner i hi
  exact ⟨t, (h.inner_run hstarted).2.2.2⟩

/-- A continuation that has been called before is called again. -/
theorem again (h : site.Traced c g k τ) (ht : t < g.runner.tickets.size) (hcalled : (g.runner.ticket t).called = true)
    {e : Option Value} (he : e ≠ some .null) (hpending : g.pending = none) :
    ∃ starting, site.Traced c (g.move c k (.next t e)) { k with starting := starting } (τ ++ [.completed t e]) := by
  have hreact : g.runner.react (.next t e) = (g.runner, [.duplicate (g.runner.stepOf t).name], .leave) := by
    simp [Runner.react, Runner.complete, hcalled, Runner.resume]
  have hdeeds : g.runner.deeds (.next t e) = [.completed t e] :=
    ((Runner.Completes.next g.runner t e).again hcalled).2
  have hreached : Reached site.base (g.runner.react (.next t e)).1 (τ ++ g.runner.deeds (.next t e)) :=
    .move h.reached (.next ht he)
  rw [hreact, hdeeds] at hreached
  have hheard : k.heard g.runner (.next t e) = [] := by
    simp [Call.heard, Runner.signals, Call.response?, hcalled]
  -- A second call is noted and comes to nothing: the stack stays, and who is at work goes on.
  have hpoised : Poised g.runner k (g.runner.duty .leave) g.runner.stack := by
    have hold := h.poised
    rw [hpending] at hold
    generalize hs : g.runner.stack = stack at hold
    cases hold with
    | nothing => exact hs ▸ poised_leave (by simp [hs]) fun i hi => h.done_next hi
    | step drives hfirm hi => exact hs ▸ poised_leave (by rw [hs]; exact hfirm) fun i hi => h.done_next hi
    | compiling drives hfirm hchore hcompile hgiven =>
      have hduty : g.runner.duty .leave = none := by
        simp [Runner.duty, Runner.awaitsLibrary, hs, hcompile]
      rw [hduty]
      exact .compiling drives hfirm hchore hcompile hgiven
  obtain ⟨starting, hlands⟩ := Call.lands_of_ne k g.runner (d := .leave) (Runner.ne_fail_of_quiet rfl)
  refine ⟨starting, ?_⟩
  exact {
    call := by
      simp only [Traffic.move, Function.update_self, hreact, hheard, List.append_nil]
      exact congrArg some hlands
    reached := by
      simp only [Traffic.move, hreact]
      exact hreached
    registry := by
      rw [History.registered_append, History.registered_singleton]
      simp only [History.registration?, Option.toList_none, List.append_nil]
      exact h.registry
    stages := by
      intro w hw
      rw [History.registered_append, History.registered_singleton, h.stages w hw]
      rfl
    steps := by simp only [Traffic.move, hreact, h.steps]
    context := by
      intro w
      simp only [Traffic.move, hreact, h.context]
    plain := h.plain
    outer := List.mem_append_left _ h.outer
    inner := by
      intro i hi
      obtain ⟨hne, inputs, u, hstarted⟩ := h.inner i hi
      exact ⟨hne, inputs, u, List.mem_append_left _ hstarted⟩
    runs := by
      simp only [Traffic.move, hreact]
      exact h.runs
    tickets := by
      rw [h.tickets]
      cases k.inner with
      | none => rfl
      | some i => simp
    crash := h.crash
    escaped := by
      intro i u x hmem
      rcases List.mem_append.mp hmem with hmem | hmem
      · exact h.escaped i u x hmem
      · simp at hmem
    poised := by
      simp only [Traffic.move, hreact]
      exact hpoised.mono rfl rfl rfl
    finished := by
      intro i done inputs hi hreports
      simp only [Traffic.move, hreact]
      exact h.finished i done inputs hi (by simpa using hreports) }

end Site.Traced
end Treeworks
