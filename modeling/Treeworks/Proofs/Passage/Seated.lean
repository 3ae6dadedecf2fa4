import Treeworks.Proofs.Passage.Traced

/-! A passage that is alone does what its stages do one after the other: at each point, what is left of the plain sequence
goes on where the passage stands. -/
namespace Treeworks
variable {site : Site} {c : Nat} {p : Passage} {parked : Value} {g g' : Traffic} {k l : Call} {τ υ : History}
  {w : Walk Value} {m : Move} {i t u n : Nat} {e : Option Value} {x : Value}

/-- What follows that neither invokes a step nor calls a callback nor completes a step leaves a passage where it stands,
unless a stage or a callback has to be called. -/
theorem Stands.append (h : Stands site c k τ none w) (hinv : ∀ j, υ.invocations j = []) (hrep : ∀ j, υ.reports j = [])
    (hcomp : ∀ j u n, τ.Open j u n → υ.firstCompletion u = none) (starting : Bool) (rs : List Response)
    (acc : Account) :
    Stands site c { k with account := acc, starting := starting, responses := rs } (τ ++ υ) none w := by
  have hopen {j u n : Nat} (ho : τ.Open j u n) : (τ ++ υ).Open j u n := ho.append (hinv j) (hrep j) (hcomp j u n ho)
  have hgoing {j n : Nat} (hg : τ.Going j n) : (τ ++ υ).Going j n := hg.append (hinv j) (hrep j)
  have hreports (j : Nat) : (τ ++ υ).reports j = τ.reports j := by
    rw [History.reports_append, hrep, List.append_nil]
  have hpast {n : Nat} (hp : Past k τ n) :
      Past { k with account := acc, starting := starting, responses := rs } (τ ++ υ) n :=
    ⟨hp.before, fun hn i hi => by rw [hreports]; exact hp.after hn i hi⟩
  cases h with
  | between hn hg hchore hending hp => exact .between hn (hgoing hg) hchore hending (hpast hp)
  | parse ho hchore hending hinner => exact .parse (hopen ho) hchore hending hinner
  | parsing ho hchore hending hinner => exact .parsing (hopen ho) hchore hending hinner
  | parsed ho hchore hending hinner hfault => exact .parsed (hopen ho) hchore hending hinner hfault
  | resting ho hchore hending hinner hstarted hg =>
    exact .resting (hopen ho) hchore hending hinner (List.mem_append_left υ hstarted) (hgoing hg)
  | transforming ho hchore hending hinner hstarted hu =>
    exact .transforming (hopen ho) hchore hending hinner (List.mem_append_left υ hstarted) (hopen hu)
  | compiling ho hchore hending hp => exact .compiling (hopen ho) hchore hending (hpast hp)
  | compiled ho hchore hending hp hfault => exact .compiled (hopen ho) hchore hending (hpast hp) hfault
  | ended hreported hchore hending hinner =>
    exact .ended (by rw [hreports]; exact hreported) hchore hending fun i hi => by rw [hreports]; exact hinner i hi

/-- Where a passage stands does not depend on what it has asked for or what has come back. -/
theorem Stands.known (h : Stands site c k τ none w) (starting : Bool) (rs : List Response) (acc : Account) :
    Stands site c { k with account := acc, starting := starting, responses := rs } τ none w := by
  have happend : Stands site c { k with account := acc, starting := starting, responses := rs } (τ ++ []) none w :=
    h.append (fun j => rfl) (fun j => rfl) (fun j u n _ => rfl) starting rs acc
  rwa [List.append_nil] at happend

/-- The plain sequence, when it has taken what has come back so far, has done what the passage has done, and goes on as
is left to be done where the passage stands. -/
structure Seated (site : Site) (c : Nat) (p : Passage) (parked : Value) (g : Traffic) (k : Call) (τ : History) : Prop where
  traced : site.Traced c g k τ
  stands : ∃ w, Stands site c k τ g.demand w ∧
    ∀ rs, site.stages c p 0 (k.responses ++ rs) ⟨[], parked⟩ = w rs k.account

theorem Site.Traced.seated (h : site.Traced c g k τ) (hstands : Stands site c k τ g.demand w)
    (hw : ∀ rs, site.stages c p 0 (k.responses ++ rs) ⟨[], parked⟩ = w rs k.account) :
    ∃ l υ, Seated site c p parked g l υ :=
  ⟨k, τ, h, w, hstands, hw⟩

namespace Traffic

/-- When nothing is pending, nothing has to be called. -/
theorem demand_of_none (h : g.pending = none) : g.demand = none := by
  rw [demand, h]
  rfl

/-- A quiet directive calls nothing. -/
theorem demand_of_quiet {d : Directive} (h : g.pending = some d) (hd : Runner.quiet d = true) : g.demand = none := by
  rw [demand, h, Option.filter_some, hd]
  rfl

/-- After a quiet directive nothing has to be called. -/
theorem demand_move (hd : Runner.quiet (g.runner.react m).2.2 = true) : (g.move c l m).demand = none := by
  have hpending : (g.move c l m).pending = (g.runner.react m).1.duty (g.runner.react m).2.2 := rfl
  generalize (g.runner.react m).1 = r, (g.runner.react m).2.2 = d at hpending hd
  cases d with
  | seek | await => exact demand_of_quiet hpending rfl
  | leave =>
    unfold Runner.duty at hpending
    dsimp only at hpending
    split at hpending
    · exact demand_of_quiet hpending rfl
    · exact demand_of_none hpending
  | invoke | call | fail => cases hd

/-- A callback has to be called when a move asks for that. -/
theorem demand_move_call {done : Value} {args : List Value} (hd : (g.runner.react m).2.2 = .call done args) :
    (g.move c l m).demand = some (.call done args) := by
  have hpending : (g.move c l m).pending = (g.runner.react m).1.duty (g.runner.react m).2.2 := rfl
  rw [demand, hpending, hd]
  rfl

end Traffic

/-- A move that signals nothing tells nothing of the transformers. -/
theorem Call.heard_of_signals_nil (k : Call) {r : Runner} (hfinds : m.finds = false) (h : r.signals m = []) :
    k.heard r m = [] := by
  cases m with
  | found step => cases hfinds
  | start | next | settled | returned | raised | watching =>
    rw [Call.heard, h, List.filterMap_nil]
    intro step heq
    cases heq

/-- What a completion tells of the transformers. -/
theorem Call.heard_of_completes (k : Call) {r : Runner} (h : r.Completes m t e) :
    k.heard r m = (k.response? r (.completed t e)).toList := by
  have hsignals := h.signals
  cases m with
  | found step => cases hsignals
  | start | next | settled | returned | raised | watching =>
    rw [Call.heard, hsignals, List.filterMap_cons, List.filterMap_nil]
    · cases k.response? r (.completed t e) <;> rfl
    · exact fun step heq => by cases heq

/-- A ticket that has been used is not that of a step that has not completed. -/
theorem Site.Traced.signalled (h : site.Traced c g k τ)
    (hcalled : (g.runner.ticket t).called = true) (e : Option Value) :
    ∀ j u n, τ.Open j u n → History.firstCompletion [.completed t e] u = none := by
  intro j u n ho
  have hne : t ≠ u := by
    rintro rfl
    have huncalled := (h.consistent.ticket_of_open ho).2.2
    rw [hcalled] at huncalled
    cases huncalled
  rw [History.firstCompletion_singleton]
  simp [hne]

/-- A move by which nothing happens leads where the passage stands then. -/
theorem Site.Traced.silent (h : site.Traced c g k τ) (hm : g.runner.Admits (τ.registry site.base) m)
    (hbegins : m.begins = false) (hfinds : m.finds = false)
    (hmove : Runner.quiet (g.runner.react m).2.2 = true ∧ g.runner.deeds m = [])
    (hbelow : ∀ a ∈ g.runner.below m, Firm g.runner k a) (hrun : l.run = k.run) (hinner : l.inner = k.inner)
    (htickets : l.tickets = k.tickets) (hcrash : l.crash = k.crash)
    (hstands : ∀ starting, Stands site c { l with starting := starting } τ none w)
    (hw : ∀ rs, site.stages c p 0 (l.responses ++ rs) ⟨[], parked⟩ = w rs l.account) :
    ∃ l' υ, Seated site c p parked (g.move c l m) l' υ := by
  obtain ⟨hquiet, hdeeds⟩ := hmove
  have hsignals : g.runner.signals m = [] := by rw [← Runner.deeds_of_quiet hquiet, hdeeds]
  obtain ⟨starting, htraced⟩ := h.move hm hbegins (.inl hquiet) hbelow hrun hinner htickets hcrash
    (fun i done inputs _ hreports => by rw [hdeeds] at hreports; cases hreports)
  rw [l.heard_of_signals_nil hfinds hsignals, List.append_nil, hdeeds, List.append_nil] at htraced
  refine htraced.seated (w := w) ?_ hw
  rw [Traffic.demand_move hquiet]
  exact hstands starting

/-- What is known of a passage changes when nothing is under way, and so does where it stands. -/
theorem Site.Traced.seated_put (h : site.Traced c g k τ) (hidle : g.Idle) (hrun : l.run = k.run)
    (hinner : l.inner = k.inner) (htickets : l.tickets = k.tickets) (hcrash : l.crash = k.crash)
    (hstands : Stands site c l τ none w)
    (hw : ∀ rs, site.stages c p 0 (l.responses ++ rs) ⟨[], parked⟩ = w rs l.account) :
    ∃ l' υ, Seated site c p parked (g.put c l) l' υ := by
  refine (h.putIdle hidle hrun hinner htickets hcrash).seated (w := w) ?_ hw
  have hpending : (g.put c l).pending = none := hidle.2
  rw [Traffic.demand_of_none hpending]
  exact hstands

namespace Seated

/-- A move by which nothing happens leaves the passage where it stands. -/
theorem silent (h : Seated site c p parked g k τ) (hdemand : g.demand = none)
    (hm : g.runner.Admits (τ.registry site.base) m) (hbegins : m.begins = false) (hfinds : m.finds = false)
    (hmove : Runner.quiet (g.runner.react m).2.2 = true ∧ g.runner.deeds m = [])
    (hbelow : ∀ a ∈ g.runner.below m, Firm g.runner k a) : ∃ l υ, Seated site c p parked (g.move c k m) l υ := by
  obtain ⟨w, hstands, hw⟩ := h.stands
  rw [hdemand] at hstands
  refine h.traced.silent hm hbegins hfinds hmove hbelow rfl rfl rfl rfl ?_ hw
  intro starting
  exact hstands.known starting k.responses k.account

/-- A further signal through a ticket leaves the passage where it stands. -/
theorem duplicate (h : Seated site c p parked g k τ) (hdemand : g.demand = none) (hm : g.runner.Completes m t e)
    (hcalled : (g.runner.ticket t).called = true)
    (hlt : t < g.runner.tickets.size) (hnull : e ≠ some .null) (hbelow : ∀ a ∈ g.runner.below m, Firm g.runner k a) : ∃ l υ, Seated site c p parked (g.move c k m) l υ := by
  obtain ⟨w, hstands, hw⟩ := h.stands
  rw [hdemand] at hstands
  obtain ⟨hquiet, hdeeds⟩ := hm.again hcalled
  have hheard : k.heard g.runner m = [] := by
    rw [k.heard_of_completes hm]
    simp [Call.response?, hcalled]
  obtain ⟨starting, htraced⟩ := h.traced.move (l := k) (hm.admits hlt hnull _) hm.begins (.inl hquiet) hbelow rfl rfl rfl rfl
    (fun i done inputs _ hreports => by rw [hdeeds] at hreports; cases hreports)
  rw [hdeeds] at htraced
  refine htraced.seated (w := w) ?_ ?_
  · rw [Traffic.demand_move hquiet]
    exact hstands.append (fun j => rfl) (fun j => rfl) (h.traced.signalled hcalled e) starting _ _
  · rw [hheard, List.append_nil]
    exact hw

/-- What the topmost activation waits for is done by the library alone, and changes nothing. -/
theorem await (h : Seated site c p parked g k τ) {v : Value} (hpending : g.pending = some (.await v)) (future : Nat) :
    ∃ l υ, Seated site c p parked (g.move c k (.watching future)) l υ := by
  have hpoised := h.traced.poised
  rw [hpending] at hpoised
  generalize hs : g.runner.stack = stack at hpoised
  cases hpoised with
  | @await v i t rest hfirm =>
    refine h.silent (Traffic.demand_of_quiet hpending rfl) (.watching future hs rfl) rfl rfl
      (Runner.quiet_watching g.runner future) ?_
    intro a ha
    rw [Runner.below, hs] at ha
    exact hfirm a ha

/-- A callback of the run of the transformers returns, or the stage that has begun it does. -/
theorem leave (h : Seated site c p parked g k τ) (hpending : g.pending = some .leave) :
    ∃ l υ, Seated site c p parked (g.move c k (.returned .null false)) l υ := by
  have hpoised := h.traced.poised
  rw [hpending] at hpoised
  generalize hs : g.runner.stack = stack at hpoised
  cases hpoised with
  | @leave a rest hfirm hstage =>
    have hreturned : (Runner.quiet (g.runner.react (.returned .null false)).2.2 = true ∧
        g.runner.deeds (.returned .null false) = []) ∧ a.wait ≠ .seeking := by
      cases hfirm a List.mem_cons_self with
      | step drives hi ht hplain =>
        obtain ⟨hcallee, -⟩ := hstage _ _ _ rfl
        rw [hcallee] at hplain
        cases hplain
      | failed drives hi => exact ⟨Runner.quiet_returned_told hs (.inl rfl), by simp⟩
      | finished drives hi => exact ⟨Runner.quiet_returned_told hs (.inr rfl), by simp⟩
      | stage drives ht hcallee hgiven => exact ⟨Runner.quiet_returned_given hs hgiven, by simp⟩
    obtain ⟨hmove, hwait⟩ := hreturned
    refine h.silent (Traffic.demand_of_quiet hpending rfl) (.returned .null false hs hwait) rfl rfl hmove ?_
    intro b hb
    rw [Runner.below, hs] at hb
    exact hfirm b (List.mem_cons_of_mem a hb)

end Seated

end Treeworks
