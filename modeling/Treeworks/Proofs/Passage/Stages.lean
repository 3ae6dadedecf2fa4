import Mathlib.Data.List.Nodup
import Treeworks.Proofs.Passage.Seated

/-! The three stages of a passage that is alone: each is invoked, does its part, and signals its completion, and then the
next one is looked for or the passage is told of its end. -/
namespace Treeworks
variable {site : Site} {c : Nat} {p : Passage} {parked : Value} {g g' : Traffic} {k l : Call} {τ υ : History}
  {w : Walk Value} {m : Move} {i t u n : Nat} {e : Option Value} {x : Value}

theorem Past.append {starting : Bool} {rs : List Response} (h : Past l τ n) (hrep : ∀ i, l.inner = some i → υ.reports i = []) :
    Past { l with starting := starting, responses := rs } (τ ++ υ) n where
  before := h.before
  after := by
    intro hn i hi
    rw [History.reports_append, hrep i hi, List.append_nil]
    exact h.after hn i hi

/-- The transformers have ended when the third stage begins. -/
theorem Past.reported (h : Past k τ 2) : ∀ i, k.inner = some i → τ.reports i ≠ [] := by
  intro i hi
  obtain ⟨done, inputs, hreports⟩ := h.after (Nat.le_refl 2) i hi
  rw [hreports]
  exact List.cons_ne_nil _ _

namespace Site.Traced

/-- The steps of the pipeline are the three stages. -/
theorem registry_zero (h : site.Traced c g k τ) : τ.registry site.base 0 = [0, 1, 2] := by
  rw [History.registry, h.stages 0 site.ware_ne.symm, List.append_nil]
  exact if_neg site.ware_ne.symm

/-- The ticket of the stage that has not completed is for the stage in its place. -/
theorem step_of_open (h : site.Traced c g k τ) (ho : τ.Open k.run t n) : n ≤ 2 ∧ (g.runner.ticket t).step = n := by
  obtain ⟨hlt, hrun, -⟩ := h.consistent.ticket_of_open ho
  obtain ⟨earlier, s, hlast, hlength, -⟩ := ho.last
  obtain ⟨hrunlt, hware, -, -⟩ := h.outer_run
  obtain ⟨-, hsteps⟩ := h.consistent.steps k.run hrunlt
  rw [hware, h.registry_zero, History.invokedSteps, hlast, List.map_append, List.map_singleton] at hsteps
  have hprefix : earlier.map (·.2) ++ [s] <+: [0, 1, 2] := by
    rw [hsteps]
    exact List.take_prefix _ _
  have hmap : (earlier.map (·.2)).length = n := by rw [List.length_map, hlength]
  have hn : n ≤ 2 := by
    have hle := hprefix.length_le
    rw [List.length_append, hmap] at hle
    exact Nat.le_of_succ_le_succ hle
  have hs : s = n := by
    have hget := hprefix.getElem (i := n) (by rw [List.length_append, hmap]; exact Nat.lt_succ_self n)
    rw [List.getElem_append_right (Nat.le_of_eq hmap), List.getElem_singleton] at hget
    obtain hn | hn | hn : n = 0 ∨ n = 1 ∨ n = 2 := by omega
    · simp only [hget, hn, List.getElem_cons_zero]
    · simp only [hget, hn, List.getElem_cons_succ, List.getElem_cons_zero]
    · simp only [hget, hn, List.getElem_cons_succ, List.getElem_cons_zero]
  refine ⟨hn, ?_⟩
  have hmem : (t, (g.runner.ticket t).step) ∈ τ.invocations k.run := by
    have hticket := (h.consistent.ticket t hlt).2.1
    rwa [hrun] at hticket
  have hmem' : (t, s) ∈ τ.invocations k.run := by
    rw [hlast]
    exact List.mem_append_right _ List.mem_cons_self
  have hnodup : ((τ.invocations k.run).map (·.1)).Nodup := h.consistent.nodup k.run
  have hpair := List.inj_on_of_nodup_map hnodup hmem hmem' rfl
  rw [← hs]
  exact congrArg Prod.snd hpair

/-- The stage in a place is one of the three. -/
theorem stepOf_of_open (h : site.Traced c g k τ) (ho : τ.Open k.run t n) :
    g.runner.stepOf t = passageSteps.getD n default := by
  obtain ⟨hn, hstep⟩ := h.step_of_open ho
  rw [Runner.stepOf, hstep, Runner.step, h.steps]
  exact site.stages_eq n (Nat.lt_succ_of_le hn)

end Site.Traced

/-- A stage signals its completion: the next one is looked for, or the passage is told of the error. -/
theorem Site.Traced.conclude (h : site.Traced c g k τ) (ho : τ.Open k.run t n) (hm : g.runner.Completes m t e)
    (hbelow : ∀ a ∈ g.runner.below m, Firm g.runner k a) (hfault : ∀ x, e = some x → x.isFault = true)
    (hrun : l.run = k.run) (hinner : l.inner = k.inner) (htickets : l.tickets = k.tickets) (hcrash : l.crash = k.crash)
    (hchore : l.chore = .none) (hending : l.ending = none) (hpast : e = none → Past l τ (n + 1))
    (hover : ∀ i, k.inner = some i → τ.reports i ≠ [])
    (hw : ∀ rs, site.stages c p 0 (l.responses ++ rs) ⟨[], parked⟩ =
      Walk.after e (site.stages c l.passage (n + 1)) rs l.account) :
    ∃ l' υ, Seated site c p parked (g.move c l m) l' υ := by
  obtain ⟨hlt, hticket, hcalled⟩ := h.consistent.ticket_of_open ho
  have hadmits : g.runner.Admits (τ.registry site.base) m := by
    refine hm.admits hlt ?_ _
    rintro rfl
    cases hfault _ rfl
  have hheard : l.heard g.runner m = [] := by
    have hne : l.inner ≠ some (g.runner.ticket t).run := by
      rw [hinner, hticket]
      intro hi
      exact (h.inner _ hi).1 rfl
    rw [l.heard_of_completes hm]
    simp [Call.response?, hne]
  -- Without an error the next stage is looked for; an error ends the stages, and the passage is told of it.
  cases e with
  | none =>
    obtain ⟨hq, hdeeds⟩ := hm.clears
    obtain ⟨starting, htraced⟩ := h.move hadmits hm.begins (.inl hq) hbelow hrun hinner htickets hcrash
      (fun i done inputs _ hreports => by rw [hdeeds] at hreports; cases hreports)
    rw [hdeeds] at htraced
    refine htraced.seated (w := site.stages c l.passage (n + 1)) ?_ ?_
    · rw [Traffic.demand_move hq]
      refine .between ?_ ?_ hchore hending ((hpast rfl).append fun i _ => rfl)
      · exact Nat.succ_le_succ (h.step_of_open ho).1
      · rw [← hrun] at ho
        exact ho.clear
    · intro rs
      rw [hheard, List.append_nil]
      exact hw rs
  | some x =>
    obtain ⟨hd, hdeeds⟩ := hm.fails hcalled
    obtain ⟨-, -, -, hdone⟩ := h.outer_run
    rw [hticket, hdone] at hd hdeeds
    have hnew (j : Nat) : (g.runner.deeds m).reports j = if k.run = j then [(.hook (.finish c c), [x])] else [] := by
      rw [hdeeds]
      by_cases hj : k.run = j
      · simp [History.reports, List.filterMap, hj]
      · simp [History.reports, List.filterMap, hj]
    have hother {i : Nat} (hi : k.inner = some i) : (g.runner.deeds m).reports i = [] := by
      rw [hnew, if_neg (h.inner i hi).1.symm]
    obtain ⟨starting, htraced⟩ := h.move hadmits hm.begins (.inr ⟨_, _, hd⟩) hbelow hrun hinner htickets hcrash
      (fun i done inputs hi hreports => by rw [hother hi] at hreports; cases hreports)
    have htold : toldError [x] = some x := by
      have hx : x ≠ .null := by
        rintro rfl
        cases hfault _ rfl
      simp [toldError, hx]
    refine htraced.seated (w := Walk.after (toldError [x]) (site.stages c l.passage 3)) ?_ ?_
    · rw [Traffic.demand_move_call hd]
      refine .reporting ?_ hchore hending ?_ ?_
      · rw [hrun, History.reports_append, ho.unreported, hnew, if_pos rfl, List.nil_append]
      · intro i hi
        rw [History.reports_append, hother (hinner ▸ hi), List.append_nil]
        exact hover i (hinner ▸ hi)
      · rw [htold]
        exact hfault
    · intro rs
      rw [hheard, htold, List.append_nil]
      exact hw rs

/-- A stage of a passage has been invoked and has to be done. -/
structure Due (site : Site) (c : Nat) (p : Passage) (parked : Value) (g : Traffic) (k : Call) (τ : History) (n t : Nat) : Prop
    where
  traced : site.Traced c g k τ
  stack : ∃ rest, g.runner.stack = ⟨k.run, true, .step t⟩ :: rest ∧ ∀ a ∈ rest, Firm g.runner k a
  isOpen : τ.Open k.run t n
  given : (g.runner.ticket t).given = (g.runner.stepOf t).takesNext 1
  chore : k.chore = .none
  ending : k.ending = none
  past : Past k τ n
  walk : ∀ rs, site.stages c p 0 (k.responses ++ rs) ⟨[], parked⟩ = site.stages c k.passage n rs k.account

namespace Due

/-- The stages are invoked in their order. -/
theorem callee (h : Due site c p parked g k τ n t) : (n = 0 ∧ (g.runner.stepOf t).callee = .hook .parseStage) ∨
    (n = 1 ∧ (g.runner.stepOf t).callee = .hook .runStage) ∨
    (n = 2 ∧ (g.runner.stepOf t).callee = .hook .compileStage) := by
  obtain ⟨hn, -⟩ := h.traced.step_of_open h.isOpen
  rw [h.traced.stepOf_of_open h.isOpen]
  obtain rfl | rfl | rfl : n = 0 ∨ n = 1 ∨ n = 2 := by omega
  · exact .inl ⟨rfl, rfl⟩
  · exact .inr (.inl ⟨rfl, rfl⟩)
  · exact .inr (.inr ⟨rfl, rfl⟩)

/-- A stage that has been invoked can be done. -/
theorem isSome_attend (h : Due site c p parked g k τ n t) (args : List Value) (context : Option Value) (future : Nat) :
    (site.attend g c k future ⟨k.run, true, .step t⟩ (.invoke (g.runner.stepOf t) args context)).isSome = true := by
  simp only [Site.attend]
  rcases h.callee with ⟨-, hcallee⟩ | ⟨-, hcallee⟩ | ⟨-, hcallee⟩
  · simp only [hcallee, Site.stage]
    split
    · rfl
    · rfl
  · simp only [hcallee, Site.stage]
    split
    · rfl
    · split
      · rfl
      · rfl
  · simp only [hcallee, Site.stage]
    split
    · rfl
    · rfl

/-- There is no tree for a stage, which fails. -/
theorem missing (h : Due site c p parked g k τ n t) (hover : ∀ i, k.inner = some i → τ.reports i ≠ [])
    (hw : ∀ rs, site.stages c k.passage n rs k.account = (.raises (site.missing c), rs, k.account)) :
    ∃ l υ, Seated site c p parked (g.move c k (.raised (site.missing c) true)) l υ := by
  obtain ⟨rest, hs, hfirm⟩ := h.stack
  obtain ⟨-, -, hcalled⟩ := h.traced.consistent.ticket_of_open h.isOpen
  refine h.traced.conclude h.isOpen (.raised hs hcalled (site.missing c)) ?_ ?_ rfl rfl rfl rfl h.chore h.ending
    (by simp) hover ?_
  · intro a ha
    rw [Runner.below, hs] at ha
    exact hfirm a ha
  · rintro x ⟨⟩
    exact site.missing_isFault c
  · intro rs
    rw [h.walk]
    exact hw rs

/-- A passage that has a tree goes on at once. One that has none gives a coroutine that parses it. -/
theorem parse (h : Due site c p parked g k τ 0 t) (hg : site.stage g c k t .parseStage = some g') :
    ∃ l υ, Seated site c p parked g' l υ := by
  obtain ⟨rest, hs, hfirm⟩ := h.stack
  have hgiven : (g.runner.ticket t).given = false := by
    rw [h.given, h.traced.stepOf_of_open h.isOpen]
    rfl
  have hnone : k.inner = none := h.past.before (Nat.zero_le 1)
  have hbelow (v : Value) (awaitable : Bool) : ∀ a ∈ g.runner.below (.returned v awaitable), Firm g.runner k a := by
    intro a ha
    rw [Runner.below, hs] at ha
    exact hfirm a ha
  simp only [Site.stage] at hg
  split at hg
  case isTrue htree =>
    cases hg
    obtain ⟨hd, hdeeds⟩ := Runner.quiet_returned_awaitable (v := .coroutine c) hs hgiven rfl
    refine h.traced.silent (.returned _ _ hs (by simp)) rfl rfl ⟨by rw [hd]; rfl, hdeeds⟩ (hbelow _ _) rfl rfl rfl rfl
      (w := do
        let tree ← Walk.parse (k.passage.look k.account.slot).file (k.passage.look k.account.slot).settings
        site.runThenStringify c (k.passage.look k.account.slot) tree) ?_ ?_
    · intro starting
      apply Stands.parse
      · exact h.isOpen
      · rfl
      · exact h.ending
      · exact hnone
    · intro rs
      rw [h.walk]
      exact Walk.process_of_null htree
  case isFalse htree =>
    cases hg
    have hm : g.runner.Completes (.returned .null false) t none := .returned hs hgiven (.inr rfl)
    refine h.traced.conclude h.isOpen hm (hbelow _ _) (by simp) rfl rfl rfl rfl h.chore h.ending
      ?_ ?_ ?_
    · intro _
      exact ⟨fun _ => hnone, fun hn => absurd hn (by decide)⟩
    · intro i hi
      rw [hnone] at hi
      cases hi
    · intro rs
      rw [h.walk]
      exact Walk.process_of_ne_null htree

/-- The transformers are run over a tree, if there are any. Without a tree the stage fails. -/
theorem run (h : Due site c p parked g k τ 1 t) (hg : site.stage g c k t .runStage = some g') :
    ∃ l υ, Seated site c p parked g' l υ := by
  obtain ⟨rest, hs, hfirm⟩ := h.stack
  have hstep : g.runner.stepOf t = passageSteps.getD 1 default := h.traced.stepOf_of_open h.isOpen
  have hgiven : (g.runner.ticket t).given = true := by
    rw [h.given, hstep]
    rfl
  obtain ⟨hlt, -, -⟩ := h.traced.consistent.ticket_of_open h.isOpen
  have hnone : k.inner = none := h.past.before (Nat.le_refl 1)
  have hover : ∀ i, k.inner = some i → τ.reports i ≠ [] := by
    intro i hi
    rw [hnone] at hi
    cases hi
  -- The stage was given its continuation, so its activation can stay while the transformers are at work.
  have hstack : ∀ a ∈ g.runner.stack, Firm g.runner k a := by
    intro a ha
    rw [hs] at ha
    rcases List.mem_cons.mp ha with rfl | ha
    · exact .stage true hlt (by rw [hstep]; rfl) hgiven
    · exact hfirm a ha
  simp only [Site.stage] at hg
  split at hg
  case isTrue htree =>
    cases hg
    exact h.missing hover fun rs => Walk.run_of_null htree
  case isFalse htree =>
    split at hg
    case isTrue hempty =>
      cases hg
      refine h.traced.conclude h.isOpen (.next g.runner t none) hstack (by simp) rfl rfl rfl rfl
        h.chore h.ending ?_ hover ?_
      · intro _
        refine ⟨fun hn => absurd hn (by decide), ?_⟩
        intro _ i hi
        rw [hnone] at hi
        cases hi
      · intro rs
        rw [List.append_assoc, h.walk]
        exact Walk.run_of_ne_null htree
    case isFalse hempty =>
      cases hg
      obtain ⟨hquiet, -⟩ := Runner.quiet_start g.runner site.ware [chosenTree k.passage.tree k.account.slot,
        k.passage.file] (.next t)
      obtain ⟨starting, htraced⟩ := h.traced.start (l := { k with
        account := { k.account with slot := parkedTree k.passage.tree k.account.slot }
        inner := some g.runner.runs.size }) [chosenTree k.passage.tree k.account.slot, k.passage.file] t hnone hstack rfl rfl rfl rfl
      refine htraced.seated (w := do
        site.transformers (chosenTree k.passage.tree k.account.slot) k.passage.file 0 false
        site.stages c k.passage 2) ?_ ?_
      · rw [Traffic.demand_move hquiet]
        apply Stands.resting
        · exact h.isOpen.append rfl rfl rfl
        · exact h.chore
        · exact h.ending
        · rfl
        · exact List.mem_append_right τ List.mem_cons_self
        · exact h.traced.consistent.going_start _ _ _
      · intro rs
        rw [h.walk]
        exact Walk.run_of_ne_null htree

/-- The compiler is called. Without a tree the stage fails. -/
theorem compile (h : Due site c p parked g k τ 2 t) (hg : site.stage g c k t .compileStage = some g') :
    ∃ l υ, Seated site c p parked g' l υ := by
  obtain ⟨rest, hs, hfirm⟩ := h.stack
  have hstep : g.runner.stepOf t = passageSteps.getD 2 default := h.traced.stepOf_of_open h.isOpen
  have hgiven : (g.runner.ticket t).given = false := by
    rw [h.given, hstep]
    rfl
  simp only [Site.stage] at hg
  split at hg
  case isTrue htree =>
    cases hg
    exact h.missing h.past.reported fun rs => Walk.stringify_of_null htree
  case isFalse htree =>
    cases hg
    have htraced := h.traced.put (l := { k with
      account := ⟨k.account.errands ++ [.compile k.passage.file k.passage.settings],
        parkedTree k.passage.tree k.account.slot⟩
      chore := .compiling t }) none rfl rfl rfl rfl (by
        rw [hs]
        refine .compiling true ?_ rfl ?_ hgiven
        · intro a ha
          exact (hfirm a ha).mono (.refl _) rfl fun i hi => hi
        · rw [hstep]
          rfl)
    refine htraced.seated (w := Walk.result) ?_ ?_
    · rw [Traffic.demand_of_none rfl]
      apply Stands.compiling
      · exact h.isOpen
      · exact .inl rfl
      · exact h.ending
      · exact ⟨h.past.before, h.past.after⟩
    · intro rs
      rw [h.walk]
      exact Walk.stringify_of_ne_null htree

end Due
/-- A run of the stages that is between two of them is where the passage stands. -/
theorem Stands.stage (h : Stands site c k τ none w) (hgoing : τ.Going k.run n) :
    n ≤ 3 ∧ k.chore = .none ∧ k.ending = none ∧ Past k τ n ∧ w = site.stages c k.passage n := by
  cases h with
  | between hn hgoing' hchore hending hpast =>
    obtain rfl : n = _ := hgoing.length.symm.trans hgoing'.length
    exact ⟨hn, hchore, hending, hpast, rfl⟩
  | parse ho | parsing ho | parsed ho | resting ho | transforming ho | compiling ho | compiled ho =>
    exact absurd ho hgoing.not_open
  | ended hreported => exact absurd hgoing.unreported hreported

/-- The future of a passage ends with what the passage is told of. -/
theorem ending_of_toldError {args : List Value} (hfault : ∀ x, toldError args = some x → x.isFault = true) :
    Passage.ending? c (args.headD .null) =
      some (match toldError args with | none => .value (.passage c) | some x => .error x) := by
  unfold toldError Passage.ending? at *
  generalize args.headD .null = v at *
  by_cases hnull : v = .null
  · rw [if_pos hnull, if_pos hnull]
  · rw [if_neg hnull] at hfault ⊢
    rw [if_neg hnull, if_pos (hfault v rfl)]

namespace Site.Traced

/-- A stage of the pipeline is one of the library's own functions. -/
theorem isHook_step (h : site.Traced c g k τ) (hn : n < 3) : (g.runner.step n).callee.isHook = true := by
  rw [Runner.step, h.steps, ← Runner.step, site.stages_eq n hn]
  obtain rfl | rfl | rfl : n = 0 ∨ n = 1 ∨ n = 2 := by omega
  · rfl
  · rfl
  · rfl

/-- What the run of the stages looks for is nothing of the transformers. -/
theorem heard_found (h : site.Traced c g k τ) {rest : List Activation}
    (hs : g.runner.stack = ⟨k.run, true, .seeking⟩ :: rest) (step : Option Nat) : k.heard g.runner (.found step) = [] := by
  have hne : k.inner ≠ some k.run := fun hi => (h.inner k.run hi).1 rfl
  simp [Call.heard, hs, hne]

end Site.Traced

namespace Seated

/-- The next stage is invoked. -/
theorem invokeStage (h : Seated site c p parked g k τ) {rest : List Activation}
    (hs : g.runner.stack = ⟨k.run, true, .seeking⟩ :: rest) (hfirm : ∀ a ∈ rest, Firm g.runner k a) (hn : n < 3)
    (hget : (site.stepsOf g (g.runner.run k.run).ware)[(g.runner.run k.run).index]? = some n) (hgoing : τ.Going k.run n)
    (hchore : k.chore = .none) (hending : k.ending = none) (hpast : Past k τ n)
    (hw : ∀ rs, site.stages c p 0 (k.responses ++ rs) ⟨[], parked⟩ = site.stages c k.passage n rs k.account) :
    ∃ l υ, Seated site c p parked (g.move c k (.found (some n))) l υ := by
  obtain ⟨-, -, hinputs, -⟩ := h.traced.outer_run
  obtain ⟨hd, hstack, hticket, hdeeds⟩ := Runner.found_some hs n
  dsimp only at hd hticket hdeeds
  rw [hinputs] at hd hticket hdeeds
  have hevolves : g.runner.Evolves (g.runner.react (.found (some n))).1 := .react _ _ rfl
  -- A stage is a hook, which the library is at work on; nobody is asked for an errand.
  have hhook : (g.runner.step n).callee.isHook = true := h.traced.isHook_step hn
  have hstepOf : (g.runner.react (.found (some n))).1.stepOf g.runner.tickets.size = g.runner.step n := by
    rw [Runner.stepOf, hticket, Runner.step, hevolves.steps, ← Runner.step]
  have hpending : (g.move c k (.found (some n))).pending = some (.invoke (g.runner.step n)
      (Runner.argumentsOf (g.runner.step n) [.passage c] g.runner.tickets.size)
      (if (g.runner.step n).takesContext then some (g.runner.ware (g.runner.run k.run).ware).context else none)) := by
    change (g.runner.react (.found (some n))).1.duty (g.runner.react (.found (some n))).2.2 = _
    rw [hd, Runner.duty, if_pos hhook]
  have hcall : (g.move c k (.found (some n))).calls c = some k := by
    simp only [Traffic.move, Function.update_self]
    rw [h.traced.heard_found hs, List.append_nil]
    simp only [Call.asks, hd, hstack, hhook, if_true, Call.lands]
  have htickets : k.tickets = k.inner.elim [] (τ ++ g.runner.deeds (.found (some n))).tickets := by
    rw [h.traced.tickets]
    cases hinner : k.inner with
    | none => rfl
    | some i => simp [hdeeds, (h.traced.inner i hinner).1.symm]
  have hpoised : Poised (g.runner.react (.found (some n))).1 k (g.move c k (.found (some n))).pending
      (g.runner.react (.found (some n))).1.stack := by
    rw [hstack, hpending, ← hstepOf]
    refine .invoke _ _ ?_ ?_ ?_ ?_ hchore
    · intro a ha
      exact (hfirm a ha).mono hevolves rfl fun i hi => hi
    · rw [Runner.size_tickets_found hs]
      exact Nat.lt_succ_self _
    · rw [hticket]
    · rw [hticket, hstepOf]
      rfl
  have htraced := h.traced.found hs rfl hget hcall rfl rfl htickets rfl hpoised
  refine htraced.seated (w := site.stages c k.passage n) ?_ hw
  rw [Traffic.demand, hpending]
  apply Stands.invoked
  · rw [hdeeds]
    exact hgoing.invoke (h.traced.consistent.fresh _ (Nat.le_refl _)) n _
  · exact hchore
  · exact hending
  · refine ⟨hpast.before, ?_⟩
    intro hn i hi
    obtain ⟨done, inputs, hreports⟩ := hpast.after hn i hi
    refine ⟨done, inputs, ?_⟩
    rw [hdeeds, History.reports_append, hreports]
    rfl

/-- No stage is left: the passage is told of its end. -/
theorem endStages (h : Seated site c p parked g k τ) {rest : List Activation}
    (hs : g.runner.stack = ⟨k.run, true, .seeking⟩ :: rest) (hfirm : ∀ a ∈ rest, Firm g.runner k a)
    (hget : (site.stepsOf g (g.runner.run k.run).ware)[(g.runner.run k.run).index]? = none) (hgoing : τ.Going k.run 3)
    (hchore : k.chore = .none) (hending : k.ending = none) (hpast : Past k τ 3)
    (hw : ∀ rs, site.stages c p 0 (k.responses ++ rs) ⟨[], parked⟩ = site.stages c k.passage 3 rs k.account) :
    ∃ l υ, Seated site c p parked (g.move c k (.found none)) l υ := by
  obtain ⟨-, -, hinputs, hdone⟩ := h.traced.outer_run
  obtain ⟨hd, hdeeds⟩ := Runner.found_none hs
  dsimp only at hd hdeeds
  rw [hdone, hinputs] at hd hdeeds
  have hnew (i : Nat) : (g.runner.deeds (.found none)).reports i =
      if k.run = i then [(.hook (.finish c c), [.null, .passage c])] else [] := by
    rw [hdeeds, History.reports_singleton, History.report?]
    split
    · rfl
    · rfl
  have hadmits : g.runner.Admits (τ.registry site.base) (.found none) := by
    rw [← hget, h.traced.stepsOf_eq]
    exact .found hs rfl
  have hbelow : ∀ a ∈ g.runner.below (.found none), Firm g.runner k a := by
    rw [Runner.below, hs]
    exact hfirm
  obtain ⟨starting, htraced⟩ := h.traced.move (l := k) hadmits rfl (.inr ⟨_, _, hd⟩) hbelow rfl rfl rfl rfl (by
    intro i done inputs hi hreports
    rw [hnew, if_neg (h.traced.inner i hi).1.symm] at hreports
    cases hreports)
  refine htraced.seated (w := Walk.after (toldError [.null, .passage c]) (site.stages c k.passage 3)) ?_ ?_
  · rw [Traffic.demand_move_call hd]
    apply Stands.reporting
    · rw [History.reports_append, hgoing.unreported, hnew, if_pos rfl, List.nil_append]
    · exact hchore
    · exact hending
    · intro i hi
      obtain ⟨done, inputs, hreports⟩ := hpast.after (by decide) i hi
      rw [History.reports_append, hreports]
      exact List.cons_ne_nil _ _
    · simp [toldError]
  · intro rs
    rw [h.traced.heard_found hs, List.append_nil]
    exact hw rs

/-- The next stage is looked for. It is invoked, or the passage is told that there is none left. -/
theorem findStage (h : Seated site c p parked g k τ) (hdemand : g.demand = none) {rest : List Activation}
    (hs : g.runner.stack = ⟨k.run, true, .seeking⟩ :: rest) (hfirm : ∀ a ∈ rest, Firm g.runner k a) :
    ∃ l υ, Seated site c p parked (g.move c k
      (.found (site.stepsOf g (g.runner.run k.run).ware)[(g.runner.run k.run).index]?)) l υ := by
  obtain ⟨hrunlt, hware, -, -⟩ := h.traced.outer_run
  have hgoing : τ.Going k.run (g.runner.run k.run).index :=
    h.traced.consistent.going_of_seeks hrunlt ⟨_, by rw [hs]; exact List.mem_cons_self, rfl, rfl⟩
  obtain ⟨w, hstands, hw⟩ := h.stands
  rw [hdemand] at hstands
  obtain ⟨hn, hchore, hending, hpast, rfl⟩ := hstands.stage hgoing
  have hsteps : site.stepsOf g (g.runner.run k.run).ware = [0, 1, 2] := by
    rw [h.traced.stepsOf_eq, hware, h.traced.registry_zero]
  rcases Nat.lt_or_ge (g.runner.run k.run).index 3 with hlt | hge
  · have hget : (site.stepsOf g (g.runner.run k.run).ware)[(g.runner.run k.run).index]? =
        some (g.runner.run k.run).index := by
      rw [hsteps]
      generalize (g.runner.run k.run).index = n at hlt
      obtain rfl | rfl | rfl : n = 0 ∨ n = 1 ∨ n = 2 := by omega
      · rfl
      · rfl
      · rfl
    rw [hget]
    exact h.invokeStage hs hfirm hlt hget hgoing hchore hending hpast hw
  · have hindex : (g.runner.run k.run).index = 3 := Nat.le_antisymm hn hge
    have hget : (site.stepsOf g (g.runner.run k.run).ware)[(g.runner.run k.run).index]? = none := by
      rw [hsteps, hindex]
      rfl
    rw [hget]
    rw [hindex] at hgoing hpast hw
    exact h.endStages hs hfirm hget hgoing hchore hending hpast hw

/-- A step that has to be invoked by the library is the stage that the passage stands at. -/
theorem due (h : Seated site c p parked g k τ) {step : Step} {args : List Value} {context : Option Value}
    (hpending : g.pending = some (.invoke step args context)) :
    ∃ n t, Due site c p parked g k τ n t ∧ step = g.runner.stepOf t := by
  have hpoised := h.traced.poised
  obtain ⟨w, hstands, hw⟩ := h.stands
  rw [Traffic.demand, hpending] at hstands
  rw [hpending] at hpoised
  generalize hs : g.runner.stack = stack at hpoised
  cases hpoised with
  | @invoke args context t rest hfirm hlt hcalled hgiven hchore =>
    cases hstands with
    | @invoked n u step args context ho hchore' hending hpast =>
      obtain ⟨j, hopen⟩ := h.traced.consistent.open_of_uncalled hlt hcalled
      have hrun : (g.runner.ticket t).run = k.run :=
        (h.traced.consistent.waits ⟨k.run, true, .step t⟩ (by rw [hs]; exact List.mem_cons_self) t (.inl rfl)).2
      rw [hrun] at hopen
      obtain ⟨rfl, rfl⟩ := hopen.unique ho
      exact ⟨j, t, ⟨h.traced, ⟨rest, hs, hfirm⟩, ho, hgiven, hchore, hending, hpast, hw⟩, rfl⟩

/-- A stage that has to be invoked is done. -/
theorem invoke (h : Seated site c p parked g k τ) {step : Step} {args : List Value} {context : Option Value}
    (hpending : g.pending = some (.invoke step args context)) {a : Activation} {rest : List Activation}
    (hs : g.runner.stack = a :: rest) (future : Nat)
    (hg : site.attend g c k future a (.invoke step args context) = some g') : ∃ l υ, Seated site c p parked g' l υ := by
  obtain ⟨n, t, hdue, rfl⟩ := h.due hpending
  obtain ⟨rest', hs', -⟩ := hdue.stack
  obtain ⟨rfl, -⟩ := List.cons.inj (hs.symm.trans hs')
  simp only [Site.attend] at hg
  rcases hdue.callee with ⟨rfl, hcallee⟩ | ⟨rfl, hcallee⟩ | ⟨rfl, hcallee⟩
  · rw [hcallee] at hg
    exact hdue.parse hg
  · rw [hcallee] at hg
    exact hdue.run hg
  · rw [hcallee] at hg
    exact hdue.compile hg

/-- The stage that has begun the transformers is told of their end. -/
theorem callNext (h : Seated site c p parked g k τ) {args : List Value}
    (hpending : g.pending = some (.call (.next t) args)) :
    ∃ l υ, Seated site c p parked (g.move c k (.next t (toldError args))) l υ := by
  have hpoised := h.traced.poised
  obtain ⟨w, hstands, hw⟩ := h.stands
  rw [Traffic.demand, hpending] at hstands
  rw [hpending] at hpoised
  generalize hs : g.runner.stack = stack at hpoised
  cases hstands with
  | @told t i args ho hchore hending hi hreports hargs hfault =>
    cases hpoised with
    | @call done args a rest hfirm ha =>
      obtain ⟨hlt, -, -⟩ := h.traced.consistent.ticket_of_open ho
      have hmem : a ∈ g.runner.stack := by
        rw [hs]
        exact List.mem_cons_self
      -- It is the run of the transformers that tells of its end: that of the stages has one open, and has not told of any.
      have hinner : k.inner = some a.run := by
        refine (h.traced.runs a.run (h.traced.consistent.run_lt a hmem)).resolve_left ?_
        intro hrun
        have htold := h.traced.consistent.told a hmem ha
        rw [hrun] at htold
        exact htold ho.unreported
      have hstack : ∀ b ∈ g.runner.stack, Firm g.runner k b := by
        intro b hb
        rw [hs] at hb
        rcases List.mem_cons.mp hb with rfl | hb
        · obtain ⟨j, drives, wait⟩ := b
          rcases ha with ha | ha
          · obtain rfl : wait = .failed := ha
            exact .failed drives hinner
          · obtain rfl : wait = .finished := ha
            exact .finished drives hinner
        · exact hfirm b hb
      have hnull : toldError args ≠ some .null := by
        intro hnull
        cases hfault _ hnull
      refine h.traced.conclude ho (.next g.runner t _) hstack hfault rfl rfl rfl rfl hchore hending
        ?_ ?_ hw
      · intro hnone
        refine ⟨fun hn => absurd hn (by decide), ?_⟩
        intro _ j hj
        obtain rfl : i = j := Option.some.inj (hi.symm.trans hj)
        cases args with
        | nil => exact absurd rfl hargs
        | cons v inputs =>
          have hv : v = .null := by
            by_contra hv
            simp [toldError, hv] at hnone
          rw [hv] at hreports
          exact ⟨_, inputs, hreports⟩
      · intro j hj
        obtain rfl : i = j := Option.some.inj (hi.symm.trans hj)
        rw [hreports]
        exact List.cons_ne_nil _ _

/-- The passage is told of its end. -/
theorem callFinish (h : Seated site c p parked g k τ) {args : List Value} {i j : Nat}
    (hpending : g.pending = some (.call (.hook (.finish i j)) args)) :
    ∃ l υ, Seated site c p parked (site.finish g c k (args.headD .null)) l υ := by
  have hpoised := h.traced.poised
  obtain ⟨w, hstands, hw⟩ := h.stands
  rw [Traffic.demand, hpending] at hstands
  rw [hpending] at hpoised
  generalize hs : g.runner.stack = stack at hpoised
  cases hstands with
  | @reporting args hreports hchore hending hinner hfault =>
    cases hpoised with
    | @call done args a rest hfirm ha =>
      have hwait : a.wait ≠ .seeking := by
        rcases ha with ha | ha
        · simp [ha]
        · simp [ha]
      rw [Site.finish, hending, ending_of_toldError hfault]
      refine h.traced.silent (.returned .null false hs hwait) rfl rfl (Runner.quiet_returned_told hs ha) ?_ rfl rfl rfl
        rfl (w := Walk.after (toldError args) (site.stages c k.passage 3)) ?_ hw
      · intro b hb
        rw [Runner.below, hs] at hb
        exact hfirm b hb
      · intro starting
        apply Stands.ended
        · rw [hreports]
          exact List.cons_ne_nil _ _
        · exact hchore
        · rfl
        · exact hinner

end Seated
end Treeworks
