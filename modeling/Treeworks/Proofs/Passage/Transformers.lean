import Treeworks.Proofs.Passage.Seated

/-! The transformers of a passage that is alone: each is looked for, invoked, and signals its completion, and then the
next one is looked for or the stage that has begun them is told of the end. -/
namespace Treeworks
variable {site : Site} {c : Nat} {p : Passage} {parked : Value} {g g' : Traffic} {k l : Call} {τ υ : History}
  {w : Walk Value} {m : Move} {i t u n : Nat} {e : Option Value} {x : Value}

/-- As long as the run of the transformers has not told of its end, the passage stands at one of them or between two. -/
theorem Stands.transformers (h : Stands site c k τ none w) (hi : k.inner = some i) (hunreported : τ.reports i = []) :
    ∃ t tree, τ.Open k.run t 1 ∧ k.chore = .none ∧ k.ending = none ∧
      .started i site.ware [tree, k.passage.file] (.next t) ∈ τ ∧
      ∃ n asked, (if asked then ∃ u, τ.Open i u n else τ.Going i n) ∧ w = (do
        site.transformers tree k.passage.file n asked
        site.stages c k.passage 2 : Walk Value) := by
  have hpast {n : Nat} (hp : Past k τ n) : False := by
    rcases Nat.lt_or_ge n 2 with hn | hn
    · have hnone := hp.before (Nat.le_of_lt_succ hn)
      rw [hi] at hnone
      cases hnone
    · obtain ⟨done, inputs, hreports⟩ := hp.after hn i hi
      rw [hunreported] at hreports
      cases hreports
  have hnone {P : Prop} (hinner : k.inner = none) : P := by
    rw [hi] at hinner
    cases hinner
  cases h with
  | between _ _ _ _ hp => exact absurd hp hpast
  | parse _ _ _ hinner => exact hnone hinner
  | parsing _ _ _ hinner => exact hnone hinner
  | parsed _ _ _ hinner => exact hnone hinner
  | compiling _ _ _ hp => exact absurd hp hpast
  | compiled _ _ _ hp => exact absurd hp hpast
  | ended _ _ _ hinner => exact absurd hunreported (hinner i hi)
  | resting ho hchore hending hinner hstarted hgoing =>
    obtain rfl : i = _ := Option.some.inj (hi.symm.trans hinner)
    exact ⟨_, _, ho, hchore, hending, hstarted, _, false, hgoing, rfl⟩
  | transforming ho hchore hending hinner hstarted hopen =>
    obtain rfl : i = _ := Option.some.inj (hi.symm.trans hinner)
    exact ⟨_, _, ho, hchore, hending, hstarted, _, true, ⟨_, hopen⟩, rfl⟩

/-- The transformers of a passage are at work over a tree: some have ended, and one that has been asked for may not have
yet. -/
structure Running (site : Site) (c : Nat) (p : Passage) (parked : Value) (g : Traffic) (k : Call) (τ : History)
    (i t : Nat) (tree : Value) (n : Nat) (asked : Bool) : Prop where
  traced : site.Traced c g k τ
  inner : k.inner = some i
  started : .started i site.ware [tree, k.passage.file] (.next t) ∈ τ
  outer : τ.Open k.run t 1
  chore : k.chore = .none
  ending : k.ending = none
  walk : ∀ rs, site.stages c p 0 (k.responses ++ rs) ⟨[], parked⟩ = (do
    site.transformers tree k.passage.file n asked
    site.stages c k.passage 2 : Walk Value) rs k.account

namespace Running
variable {tree : Value}

/-- The stage that has begun the transformers is none of them. -/
theorem outer_ne {asked : Bool} {j : Nat} (h : Running site c p parked g k τ i t tree n asked) (ho : τ.Open i u j) :
    t ≠ u := by
  rintro rfl
  have hrun := (h.traced.consistent.ticket_of_open h.outer).2.1
  have hrun' := (h.traced.consistent.ticket_of_open ho).2.1
  exact (h.traced.inner i h.inner).1 (hrun'.symm.trans hrun)

/-- The next transformer is invoked. -/
theorem invoke (h : Running site c p parked g k τ i t tree n false) {rest : List Activation} {s : Nat}
    (hs : g.runner.stack = ⟨i, true, .seeking⟩ :: rest) (hfirm : ∀ a ∈ rest, Firm g.runner k a)
    (hget : (site.stepsOf g (g.runner.run i).ware)[(g.runner.run i).index]? = some s) (hgoing : τ.Going i n) :
    ∃ l υ, Seated site c p parked (g.move c k (.found (some s))) l υ := by
  obtain ⟨hrunlt, hware, hinputs, hdone⟩ := h.traced.inner_run h.started
  obtain ⟨hd, hstack, hticket, hdeeds⟩ := Runner.found_some hs s
  dsimp only at hd hstack hticket hdeeds
  rw [hinputs, hware] at hd
  rw [hinputs] at hticket hdeeds
  have hevolves : g.runner.Evolves (g.runner.react (.found (some s))).1 := .react _ _ rfl
  have hstep : g.runner.step s = site.runner.step s := by rw [Runner.step, h.traced.steps, ← Runner.step]
  -- None of what is registered at the site is a hook, so that the step asks for an errand.
  have hplain : (g.runner.step s).callee.isHook = false := by
    rw [hstep]
    refine h.traced.plain s ?_
    have hregistry : site.stepsOf g (g.runner.run i).ware = g.registry := by
      rw [hware]
      exact if_pos rfl
    rw [← hregistry]
    exact List.mem_of_getElem? hget
  have hlength : k.tickets.length = n := by
    rw [h.traced.tickets, h.inner, Option.elim_some, History.tickets, List.length_map, hgoing.length]
  have herrand : site.errand s tree k.passage.file n = .transform (g.runner.step s)
      (Runner.argumentsOf (g.runner.step s) [tree, k.passage.file] k.tickets.length)
      (if (g.runner.step s).takesContext then some (g.runner.ware site.ware).context else none) := by
    rw [Site.errand, hlength, hstep, h.traced.context]
  have hinputs' : ((g.runner.react (.found (some s))).1.run i).inputs = [tree, k.passage.file] := by
    have hadmits : g.runner.Admits (τ.registry site.base) (.found (some s)) := by
      rw [← hget, h.traced.stepsOf_eq]
      exact .found hs rfl
    have hr' := Runner.consistent_of_reached (.move h.traced.reached hadmits)
    exact ((hr'.started _ _ _ _).mp (List.mem_append_left _ h.started)).2.2.1
  have hheard : k.heard g.runner (.found (some s)) = [.stood (some s)] := by
    simp [Call.heard, hs, h.inner]
  have hpending : (g.move c k (.found (some s))).pending = none := by
    change (g.runner.react (.found (some s))).1.duty (g.runner.react (.found (some s))).2.2 = _
    rw [hd, Runner.duty, hplain]
    rfl
  have hcall : (g.move c k (.found (some s))).calls c = some { k with
      tickets := k.tickets ++ [g.runner.tickets.size]
      account := { k.account with errands := k.account.errands ++ [site.errand s tree k.passage.file n] }
      responses := k.responses ++ [.stood (some s)] } := by
    simp only [Traffic.move, Function.update_self]
    rw [hheard, herrand]
    simp [Call.asks, hd, hstack, hplain, Call.lands, hinputs']
  have hpoised : Poised (g.runner.react (.found (some s))).1 k none (g.runner.react (.found (some s))).1.stack := by
    rw [hstack]
    refine .step true ?_ h.inner
    intro a ha
    rcases List.mem_cons.mp ha with rfl | ha
    · refine .step true h.inner ?_ ?_
      · rw [Runner.size_tickets_found hs]
        exact Nat.lt_succ_self _
      · rw [Runner.stepOf, hticket, Runner.step, hevolves.steps, ← Runner.step]
        exact hplain
    · exact (hfirm a ha).mono hevolves rfl fun i hi => hi
  have htraced := h.traced.found hs rfl hget hcall rfl rfl (by
    simp [h.traced.tickets, h.inner, hdeeds]) rfl (by
    rw [hpending]
    exact hpoised.mono rfl rfl rfl)
  refine htraced.seated (w := do
    site.transformers tree k.passage.file n true
    site.stages c k.passage 2) ?_ ?_
  · rw [Traffic.demand_of_none hpending]
    apply Stands.transforming
    · refine h.outer.append ?_ ?_ ?_
      · simp [hdeeds, (h.traced.inner i h.inner).1]
      · simp [hdeeds]
      · simp [hdeeds]
    · exact h.chore
    · exact h.ending
    · exact h.inner
    · exact List.mem_append_left _ h.started
    · rw [hdeeds]
      exact hgoing.invoke (h.traced.consistent.fresh _ (Nat.le_refl _)) s _
  · intro rs
    rw [List.append_assoc, h.walk]
    rfl

/-- No transformer is left: the stage that has begun them is told of the end. -/
theorem finish (h : Running site c p parked g k τ i t tree n false) {rest : List Activation}
    (hs : g.runner.stack = ⟨i, true, .seeking⟩ :: rest) (hfirm : ∀ a ∈ rest, Firm g.runner k a)
    (hget : (site.stepsOf g (g.runner.run i).ware)[(g.runner.run i).index]? = none) (hgoing : τ.Going i n) :
    ∃ l υ, Seated site c p parked (g.move c k (.found none)) l υ := by
  obtain ⟨-, -, hinputs, hdone⟩ := h.traced.inner_run h.started
  obtain ⟨hd, hdeeds⟩ := Runner.found_none hs
  dsimp only at hd hdeeds
  rw [hdone, hinputs] at hd hdeeds
  have hheard : k.heard g.runner (.found none) = [.stood none] := by
    simp [Call.heard, hs, h.inner]
  have hadmits : g.runner.Admits (τ.registry site.base) (.found none) := by
    rw [← hget, h.traced.stepsOf_eq]
    exact .found hs rfl
  have hbelow : ∀ a ∈ g.runner.below (.found none), Firm g.runner k a := by
    rw [Runner.below, hs]
    exact hfirm
  obtain ⟨starting, htraced⟩ := h.traced.move (l := k) hadmits rfl (.inr ⟨_, _, hd⟩) hbelow rfl rfl rfl rfl (by
    intro j done inputs hj _ a ha haj u hau
    obtain rfl : i = j := Option.some.inj (h.inner.symm.trans hj)
    rw [Runner.below, hs] at ha
    exact h.traced.consistent.not_step_of_seeking hs ha haj hau)
  refine htraced.seated (w := Walk.after (toldError [.null, tree, k.passage.file]) (site.stages c k.passage 2)) ?_ ?_
  · rw [Traffic.demand_move_call hd]
    apply Stands.told
    · refine h.outer.append ?_ ?_ ?_
      · simp [hdeeds]
      · simp [hdeeds, (h.traced.inner i h.inner).1]
      · simp [hdeeds]
    · exact h.chore
    · exact h.ending
    · exact h.inner
    · rw [History.reports_append, hgoing.unreported, hdeeds]
      simp
    · exact List.cons_ne_nil _ _
    · simp [toldError]
  · intro rs
    rw [hheard, List.append_assoc, h.walk]
    rfl

/-- A transformer that was asked for ends without an error. -/
theorem clear (h : Running site c p parked g k τ i t tree n true) (ho : τ.Open i u n) (hm : g.runner.Completes m u none)
    (hbelow : ∀ a ∈ g.runner.below m, Firm g.runner k a) : ∃ l υ, Seated site c p parked (g.move c k m) l υ := by
  obtain ⟨hlt, hrun, hcalled⟩ := h.traced.consistent.ticket_of_open ho
  have hheard : k.heard g.runner m = [.gave .null] := by
    rw [k.heard_of_completes hm]
    simp [Call.response?, hcalled, hrun, h.inner]
  obtain ⟨hq, hdeeds⟩ := hm.clears
  obtain ⟨starting, htraced⟩ := h.traced.move (l := k) (hm.admits hlt (by simp) _) hm.begins (.inl hq) hbelow rfl rfl rfl rfl
    (fun i done inputs _ hreports => by rw [hdeeds] at hreports; cases hreports)
  rw [hdeeds] at htraced
  refine htraced.seated (w := do
    site.transformers tree k.passage.file (n + 1) false
    site.stages c k.passage 2) ?_ ?_
  · rw [Traffic.demand_move hq]
    apply Stands.resting
    · refine h.outer.append rfl rfl ?_
      simp [(h.outer_ne ho).symm]
    · exact h.chore
    · exact h.ending
    · exact h.inner
    · exact List.mem_append_left _ h.started
    · exact ho.clear
  · intro rs
    rw [hheard, List.append_assoc]
    exact h.walk _

/-- A transformer that was asked for ends with an error, of which the stage that has begun them is told. -/
theorem fail (h : Running site c p parked g k τ i t tree n true) (ho : τ.Open i u n)
    (hm : g.runner.Completes m u (some x)) (hbelow : ∀ a ∈ g.runner.below m, Firm g.runner k a)
    (hx : x.isFault = true) : ∃ l υ, Seated site c p parked (g.move c k m) l υ := by
  obtain ⟨hlt, hrun, hcalled⟩ := h.traced.consistent.ticket_of_open ho
  have hheard : k.heard g.runner m = [.failed x] := by
    rw [k.heard_of_completes hm]
    simp [Call.response?, hcalled, hrun, h.inner]
  obtain ⟨hd, hdeeds⟩ := hm.fails hcalled
  obtain ⟨-, -, -, hdone⟩ := h.traced.inner_run h.started
  rw [hrun, hdone] at hd hdeeds
  have hnull : x ≠ .null := by
    rintro rfl
    cases hx
  have hnew (j : Nat) : (g.runner.deeds m).reports j = if i = j then [(.next t, [x])] else [] := by
    rw [hdeeds]
    by_cases hij : i = j
    · simp [History.reports, List.filterMap, hij]
    · simp [History.reports, List.filterMap, hij]
  obtain ⟨starting, htraced⟩ := h.traced.move (l := k) (hm.admits hlt (by simpa using hnull) _) hm.begins (.inr ⟨_, _, hd⟩) hbelow rfl rfl rfl rfl (by
    intro j done inputs _ hreports
    rw [hnew] at hreports
    split at hreports
    · cases hreports
      exact absurd rfl hnull
    · cases hreports)
  have htold : toldError [x] = some x := by simp [toldError, hnull]
  refine htraced.seated (w := Walk.after (toldError [x]) (site.stages c k.passage 2)) ?_ ?_
  · rw [Traffic.demand_move_call hd]
    apply Stands.told
    · refine h.outer.append ?_ ?_ ?_
      · rw [hdeeds]
        simp [History.invocations]
      · rw [hnew, if_neg (h.traced.inner i h.inner).1]
      · rw [hdeeds]
        simp [History.firstCompletion, (h.outer_ne ho).symm]
    · exact h.chore
    · exact h.ending
    · exact h.inner
    · rw [History.reports_append, ho.unreported, hnew, if_pos rfl, List.nil_append]
    · exact List.cons_ne_nil _ _
    · rw [htold]
      rintro y ⟨⟩
      exact hx
  · intro rs
    rw [hheard, htold, List.append_assoc]
    exact h.walk _

end Running

namespace Seated

/-- The transformers of a passage are at work as long as their run has not told of its end. -/
theorem running (h : Seated site c p parked g k τ) (hdemand : g.demand = none) (hi : k.inner = some i)
    (hunreported : τ.reports i = []) : ∃ t tree n asked, Running site c p parked g k τ i t tree n asked ∧
      if asked then ∃ u, τ.Open i u n else τ.Going i n := by
  obtain ⟨w, hstands, hw⟩ := h.stands
  rw [hdemand] at hstands
  obtain ⟨t, tree, ho, hchore, hending, hstarted, n, asked, hat, rfl⟩ := hstands.transformers hi hunreported
  exact ⟨t, tree, n, asked, ⟨h.traced, hi, hstarted, ho, hchore, hending, hw⟩, hat⟩

/-- The next transformer is looked for. -/
theorem findTransformer (h : Seated site c p parked g k τ) (hdemand : g.demand = none) (hi : k.inner = some i)
    {rest : List Activation} (hs : g.runner.stack = ⟨i, true, .seeking⟩ :: rest) (hfirm : ∀ a ∈ rest, Firm g.runner k a) :
    ∃ l υ, Seated site c p parked (g.move c k
      (.found (site.stepsOf g (g.runner.run i).ware)[(g.runner.run i).index]?)) l υ := by
  have hmem : ⟨i, true, .seeking⟩ ∈ g.runner.stack := by
    rw [hs]
    exact List.mem_cons_self
  have hgoing := h.traced.consistent.going_of_seeks (h.traced.consistent.run_lt _ hmem) ⟨_, hmem, rfl, rfl⟩
  obtain ⟨t, tree, n, asked, hrunning, hat⟩ := h.running hdemand hi hgoing.unreported
  cases asked with
  | true =>
    obtain ⟨u, ho⟩ := hat
    exact absurd ho hgoing.not_open
  | false =>
    cases hget : (site.stepsOf g (g.runner.run i).ware)[(g.runner.run i).index]? with
    | none => exact hrunning.finish hs hfirm hget hat
    | some s => exact hrunning.invoke hs hfirm hget hat

/-- The continuation or the future of a transformer signals a completion. Only the first one counts: it lets the
transformers go on, or ends them with an error. -/
theorem signal (h : Seated site c p parked g k τ) (hdemand : g.demand = none) (hi : k.inner = some i)
    (hu : u ∈ τ.tickets i) (hm : g.runner.Completes m u e) (hbelow : ∀ a ∈ g.runner.below m, Firm g.runner k a)
    (hfault : ∀ x, e = some x → x.isFault = true) : ∃ l υ, Seated site c p parked (g.move c k m) l υ := by
  have hr := h.traced.consistent
  obtain ⟨hlt, hrun⟩ := hr.ticket_of_mem hu
  have hnull : e ≠ some .null := by
    rintro rfl
    cases hfault _ rfl
  cases hcalled : (g.runner.ticket u).called with
  | true => exact h.duplicate hdemand hm hcalled hlt hnull hbelow
  | false =>
    obtain ⟨j, ho⟩ := hr.open_of_uncalled hlt hcalled
    rw [hrun] at ho
    obtain ⟨t, tree, n, asked, hrunning, hat⟩ := h.running hdemand hi ho.unreported
    cases asked with
    | false => exact absurd ho (History.Going.not_open hat)
    | true =>
      obtain ⟨v, hv⟩ := hat
      obtain ⟨-, rfl⟩ := ho.unique hv
      cases e with
      | none => exact hrunning.clear ho hm hbelow
      | some x => exact hrunning.fail ho hm hbelow (hfault x rfl)

end Seated
end Treeworks
