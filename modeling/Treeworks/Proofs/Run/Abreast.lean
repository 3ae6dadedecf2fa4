import Treeworks.Proofs.Run.Bench
import Treeworks.Proofs.Run.Course

/-! Two benches at which the same is done: one where a run keeps on the stack what its steps have returned, and one
where a loop has taken it over. What is done above that is the same for both. -/
namespace Treeworks.Bench
open Runner
variable {base : Nat → List Nat} {r : Runner} {τ : History} {main i t : Nat} {f : Run → Run}
  {g g' : List Activation} {m m' : Move} {mode : Mode} {b b' d : Bench}

/-- A bench that plays what another plays, above activations that the other does not have. -/
structure Rests (main : Nat) (f : Run → Run) (g : List Activation) (b d : Bench) : Prop where
  runner : b.runner.atop main id [] = d.runner.atop main f g
  history : b.history = d.history

namespace Rests

theorem stack (h : Rests main f g b d) : b.runner.stack = d.runner.stack ++ g := by
  have := congrArg Runner.stack h.runner
  simpa [atop] using this

theorem tickets (h : Rests main f g b d) : b.runner.tickets = d.runner.tickets := by
  have htickets := congrArg Runner.tickets h.runner
  exact htickets

theorem ticket (h : Rests main f g b d) (t : Nat) : b.runner.ticket t = d.runner.ticket t := by
  rw [Runner.ticket, h.tickets, Runner.ticket]

theorem runs_size (h : Rests main f g b d) : b.runner.runs.size = d.runner.runs.size := by
  have hsize := congrArg (fun r : Runner => r.runs.size) h.runner
  simpa using hsize

theorem steps (h : Rests main f g b d) : b.runner.steps = d.runner.steps := by
  have hsteps := congrArg Runner.steps h.runner
  exact hsteps

theorem run (h : Rests main f g b d) (hi : Unseen f main i) : b.runner.run i = d.runner.run i := by
  have hb := Atop.run (r := b.runner) (g := []) (f := id) (i := main) (j := i) (.inl rfl)
  rw [← hb, h.runner, Atop.run hi]

/-- What can be reached with less beneath can be reached with more. -/
theorem reaches (h : Rests main f g b d) (hm : d.runner.Reaches (Unseen f main) m) :
    b.runner.Reaches (Unseen id main) m := by
  cases m with
  | settled | watching => cases hm
  | start w inputs done => exact .inl rfl
  | next t e => exact fun _ => .inl rfl
  | found | returned | raised =>
    obtain ⟨a, rest, hs, -⟩ := hm
    exact ⟨a, rest ++ g, by rw [h.stack, hs, List.cons_append], .inl rfl, fun _ _ => .inl rfl⟩

/-- A move that goes on with nothing beneath is the same for both. -/
theorem make (h : Rests main f g b d) (hm : d.runner.Reaches (Unseen f main) m) :
    Rests main f g (b.make m) (d.make m) ∧ (b.runner.react m).2.2 = (d.runner.react m).2.2 := by
  have hb := Atop.react (g := []) (h.reaches hm)
  have hd := Atop.react (g := g) hm
  rw [h.runner, hd] at hb
  have hdeeds : b.runner.deeds m = d.runner.deeds m := by
    rw [← Atop.deeds (g := []) (h.reaches hm), h.runner, Atop.deeds hm]
  refine ⟨⟨(congrArg Prod.fst hb).symm, ?_⟩, (congrArg (fun p => p.2.2) hb).symm⟩
  rw [Bench.make, Bench.make, h.history, hdeeds]

theorem sought (h : Rests main f g b d) {a : Activation} {rest : List Activation} (hs : d.runner.stack = a :: rest)
    (ha : Unseen f main a.run) : b.sought base = d.sought base := by
  have hb : b.runner.stack = a :: (rest ++ g) := by rw [h.stack, hs, List.cons_append]
  rw [Bench.sought, Bench.sought, hb, hs]
  dsimp only
  rw [h.run ha, h.history]

/-- What needs nobody's work is seen to in the same way by both, unless it is an awaitable. -/
theorem attend (h : Rests main f g b d) (mode : Mode) (base : Nat → List Nat) {l : List Activation} {dir : Directive}
    (hputs : Puts l dir d.runner.stack) (hl : ∀ a ∈ d.runner.stack, Unseen f main a.run)
    (hawait : ∀ v, dir ≠ .await v) :
    Rests main f g (b.attend mode base dir) (d.attend .direct base dir) ∧
      (b.attend mode base dir).waiting = b.waiting ∧
      ∀ a ∈ (d.attend .direct base dir).runner.stack, Unseen f main a.run := by
  cases dir with
  | invoke | call | leave | fail => exact ⟨h, rfl, hl⟩
  | await v => exact absurd rfl (hawait v)
  | seek steps k =>
    obtain ⟨i, hs⟩ : ∃ i, d.runner.stack = ⟨i, true, .seeking⟩ :: l := by
      cases hs : d.runner.stack with
      | nil => rw [hs] at hputs; cases hputs
      | cons a rest => rw [hs] at hputs; cases hputs; exact ⟨_, rfl⟩
    have hi : Unseen f main i := hl _ (by rw [hs]; exact List.mem_cons_self)
    have hfound : d.runner.Reaches (Unseen f main) (.found (d.sought base)) :=
      ⟨_, l, hs, hi, fun t ht => by rcases ht with ht | ht <;> cases ht⟩
    have hgoes (a : Activation) (rest : List Activation) (ha : d.runner.stack = a :: rest) :
        d.runner.Goes a (· = a.run) := by
      rw [hs] at ha
      cases ha
      exact ⟨rfl, fun t ht => by rcases ht with ht | ht <;> cases ht⟩
    simp only [Bench.attend]
    rw [h.sought hs hi]
    exact ⟨(h.make hfound).1, rfl, Onto.react hfound hl hgoes⟩

/-- A move is made and seen to in the same way by both. -/
theorem move (h : Rests main f g b d) (mode : Mode) (base : Nat → List Nat)
    (hm : d.runner.Reaches (Unseen f main) m)
    (hl : ∀ a ∈ d.runner.stack, Unseen f main a.run) (hgoes : ∀ a rest, d.runner.stack = a :: rest → d.runner.Goes a (· = a.run))
    (hawait : ∀ v, (d.runner.react m).2.2 ≠ .await v) :
    Rests main f g (b.move mode base m) (d.move .direct base m) ∧ (b.move mode base m).waiting = b.waiting ∧
      ∀ a ∈ (d.move .direct base m).runner.stack, Unseen f main a.run := by
  obtain ⟨hmake, hdirective⟩ := h.make hm
  have hattend := hmake.attend mode base (puts_react d.runner m) (Onto.react hm hl hgoes) hawait
  rw [Bench.move, Bench.move, hdirective]
  exact hattend

end Rests
/-- What two benches have beneath what both play. They are together, or the first still has an awaitable of the run
that the second has left to its loop, or both have a callback that has been told of an error. -/
inductive Footing (main : Nat) (r : Runner) : (Run → Run) → List Activation → List Activation → Option (Nat × Nat) → Prop
  | idle (empty : r.stack = []) : Footing main r id [] [] none
  | working (wait : Wait) (works : r.Works wait) : Footing main r id [⟨main, true, wait⟩] [⟨main, true, wait⟩] none
  | apart (t future : Nat) (given : (r.ticket t).given = false) (called : (r.ticket t).called = false)
      (others : ∀ a ∈ r.stack, a.run ≠ main) : Footing main r driven [⟨main, true, .settling t⟩] [] (some (t, future))
  | failing (others : ∀ a ∈ r.stack, a.run ≠ main) :
      Footing main r driven [⟨main, true, .failed⟩] [⟨main, false, .failed⟩] none

/-- Two benches at which the same is done: the first without a loop, the second with one. -/
structure Abreast (base : Nat → List Nat) (main : Nat) (b b' : Bench) : Prop where
  reached : Reached base b.runner b.history
  reached' : Reached base b'.runner b'.history
  main_lt : main < b.runner.runs.size
  waiting : b.waiting = none
  play : ∃ d f g g', Rests main f g b d ∧ Rests main id g' b' d ∧ Footing main d.runner f g g' b'.waiting

theorem Footing.unseen {x : Option (Nat × Nat)} (h : Footing main r f g g' x) :
    ∀ a ∈ r.stack, Unseen f main a.run := by
  intro a ha
  cases h with
  | idle | working => exact .inl rfl
  | apart _ _ _ _ others | failing others => exact .inr (others a ha)

/-- What waits for a ticket is for its run. -/
theorem goes_of_reached (h : Reached base r τ) {a : Activation} (ha : a ∈ r.stack) : r.Goes a (· = a.run) :=
  ⟨rfl, fun t ht => ((consistent_of_reached h).waits a ha t ht).2⟩

theorem Rests.goes (h : Rests main f g b d) (hb : Reached base b.runner b.history) (a : Activation)
    (rest : List Activation) (hs : d.runner.stack = a :: rest) : d.runner.Goes a (· = a.run) := by
  have ha : a ∈ b.runner.stack := by
    rw [h.stack, hs]
    exact List.mem_cons_self
  refine ⟨rfl, fun t ht => ?_⟩
  rw [← h.ticket]
  exact (goes_of_reached hb ha).2 t ht

/-- The same people are at work at both benches. -/
theorem Abreast.told_eq (h : Abreast base main b b') : b'.told = b.told := by
  obtain ⟨d, f, g, g', hb, hb', hf⟩ := h.play
  have hwork : b'.atWork = b.atWork := by
    cases hd : d.runner.stack with
    | cons a rest =>
      have hs : b.runner.stack = a :: (rest ++ g) := by rw [hb.stack, hd, List.cons_append]
      have hs' : b'.runner.stack = a :: (rest ++ g') := by rw [hb'.stack, hd, List.cons_append]
      simp only [atWork, hs, hs']
    | nil =>
      have hs : b.runner.stack = g := by rw [hb.stack, hd, List.nil_append]
      have hs' : b'.runner.stack = g' := by rw [hb'.stack, hd, List.nil_append]
      generalize hx : b'.waiting = x at hf
      cases hf with
      | idle => simp [atWork, hs, hs', hx, h.waiting]
      | working => simp only [atWork, hs, hs']
      | failing => simp [atWork, hs, hs']
      | apart t future =>
        have hgoes := (goes_of_reached h.reached (a := ⟨main, true, .settling t⟩) (by rw [hs]; exact List.mem_singleton_self _)).2
        have hrun : (b'.runner.ticket t).run = main := by
          rw [hb'.ticket, ← hb.ticket]
          exact hgoes t (.inr rfl)
        simp [atWork, hs, hs', hx, hrun]
  rw [told, told, hwork, hb.history, hb'.history]

theorem Abreast.tickets_eq (h : Abreast base main b b') : b'.runner.tickets = b.runner.tickets := by
  obtain ⟨d, f, g, g', hb, hb', -⟩ := h.play
  rw [hb.tickets, hb'.tickets]

/-- The same may be done at both benches. -/
theorem Abreast.permitted_iff (h : Abreast base main b b') (x : Doing) :
    x.Permitted main b'.runner b'.atWork ↔ x.Permitted main b.runner b.atWork := by
  have hwork : b'.atWork = b.atWork := congrArg Prod.snd h.told_eq
  have hticket (t : Nat) : b'.runner.ticket t = b.runner.ticket t := by
    rw [Runner.ticket, h.tickets_eq, Runner.ticket]
  rw [hwork]
  unfold Doing.Permitted
  simp only [hticket, h.tickets_eq]

/-- A bench that has gone on from another. -/
structure Later (b d : Bench) : Prop where
  runs : b.runner.runs.size ≤ d.runner.runs.size
  tickets : b.runner.tickets.size ≤ d.runner.tickets.size
  given : ∀ t < b.runner.tickets.size, (d.runner.ticket t).given = (b.runner.ticket t).given

namespace Later

theorem make (h : Later b d) (m : Move) : Later b (d.make m) where
  runs := Nat.le_trans h.runs (sizes_react d.runner m).1
  tickets := Nat.le_trans h.tickets (sizes_react d.runner m).2
  given := fun t ht => (given_react d.runner m (Nat.lt_of_lt_of_le ht h.tickets)).trans (h.given t ht)

theorem attend (h : Later b d) (mode : Mode) (base : Nat → List Nat) (dir : Directive) : Later b (d.attend mode base dir) := by
  cases dir with
  | invoke | call | leave | fail => exact h
  | seek steps k => exact h.make _
  | await v =>
    simp only [Bench.attend]
    split
    · next future t _ =>
      have hmake := h.make (.watching (future t))
      exact ⟨hmake.runs, hmake.tickets, hmake.given⟩
    · exact h

theorem move (mode : Mode) (base : Nat → List Nat) (b : Bench) (m : Move) : Later b (b.move mode base m) := by
  have hb : Later b b := ⟨Nat.le_refl _, Nat.le_refl _, fun _ _ => rfl⟩
  exact (hb.make m).attend mode base _

end Later

/-- What is seen to by itself signals nothing. -/
theorem firstCompletion_attend (b : Bench) (t : Nat) (dir : Directive) :
    (b.attend mode base dir).history.firstCompletion t = b.history.firstCompletion t := by
  have hmake (m : Move) (hm : b.runner.signals m = []) :
      (b.make m).history.firstCompletion t = b.history.firstCompletion t := by
    rw [make, History.firstCompletion_append, firstCompletion_deeds (by simp [hm]), Option.or_none]
  cases dir with
  | invoke | call | leave | fail => rfl
  | seek steps k => exact hmake _ rfl
  | await v =>
    simp only [attend]
    split
    · exact hmake _ rfl
    · rfl

/-- A ticket that nothing is signalled through is as unused as before. -/
theorem called_move (hb : Reached base b.runner b.history)
    (hmove : Reached base (b.move mode base m).runner (b.move mode base m).history)
    (ht : t < b.runner.tickets.size) (hno : ∀ e, .completed t e ∉ b.runner.signals m) :
    ((b.move mode base m).runner.ticket t).called = (b.runner.ticket t).called := by
  have ht' := Nat.lt_of_lt_of_le ht (Later.move mode base b m).tickets
  have hfirst : (b.move mode base m).history.firstCompletion t = b.history.firstCompletion t := by
    rw [move, firstCompletion_attend, make, History.firstCompletion_append, firstCompletion_deeds hno, Option.or_none]
  rw [((consistent_of_reached hmove).ticket t ht').2.2, ((consistent_of_reached hb).ticket t ht).2.2, hfirst]

/-- Two benches with what they come to by a move each, the first without a loop. -/
structure Paired (base : Nat → List Nat) (main : Nat) (mode : Mode) (b b' : Bench) (m m' : Move) : Prop where
  reached : Reached base b.runner b.history
  reached' : Reached base b'.runner b'.history
  moved : Reached base (b.move .direct base m).runner (b.move .direct base m).history
  moved' : Reached base (b'.move mode base m').runner (b'.move mode base m').history
  main_lt : main < (b.move .direct base m).runner.runs.size
  waiting : b.waiting = none

/-- Two benches stay abreast when both do something that has nothing to do with what is beneath. -/
theorem Footing.move (hf : Footing main d.runner f g g' b'.waiting) (hb : Rests main f g b d)
    (hb' : Rests main id g' b' d) (hp : Paired base main mode b b' m m) (hs : b.runner.stack ≠ [])
    (hm : d.runner.Reaches (Unseen f main) m) (hawait : ∀ v, (d.runner.react m).2.2 ≠ .await v)
    (hsignals : ∀ t e, .completed t e ∈ b.runner.signals m →
      (b.runner.ticket t).given = true ∨ (b.runner.ticket t).run ≠ main) :
    Abreast base main (b.move .direct base m) (b'.move mode base m) := by
  obtain ⟨hrest, hw, hstack⟩ := hb.move .direct base hm hf.unseen (hb.goes hp.reached) hawait
  obtain ⟨hrest', hw', -⟩ := hb'.move mode base (hm.mono fun _ _ => .inl rfl) (fun _ _ => .inl rfl)
    (hb.goes hp.reached) hawait
  have hlater : Later b (b.move .direct base m) := .move .direct base b m
  refine ⟨hp.moved, hp.moved', hp.main_lt, hw.trans hp.waiting, d.move .direct base m, f, g, g', hrest,
    hrest', ?_⟩
  -- A ticket that the run waits with beneath stays as it is, if it was not given to its step.
  have hheld {wait : Wait} (hmem : ⟨main, true, wait⟩ ∈ g) (t : Nat) (ht : wait = .step t ∨ wait = .settling t) :
      ((d.move .direct base m).runner.ticket t).given = (d.runner.ticket t).given ∧
        ((d.runner.ticket t).given = false →
          ((d.move .direct base m).runner.ticket t).called = (d.runner.ticket t).called) := by
    have hmem' : ⟨main, true, wait⟩ ∈ b.runner.stack := by
      rw [hb.stack]
      exact List.mem_append_right _ hmem
    obtain ⟨hlt, hrun⟩ := (consistent_of_reached hp.reached).waits _ hmem' t ht
    rw [← hrest.ticket, ← hb.ticket]
    refine ⟨hlater.given t hlt, fun hgiven => called_move hp.reached hp.moved hlt fun e he => ?_⟩
    rcases hsignals t e he with hgave | hne
    · rw [hgiven] at hgave
      cases hgave
    · exact hne hrun
  rw [hw']
  generalize b'.waiting = x at hf
  cases hf with
  | idle empty =>
    refine absurd ?_ hs
    rw [hb.stack, empty]
    rfl
  | working wait works =>
    refine .working wait ?_
    cases wait with
    | failed | finished => trivial
    | seeking | settling => exact works
    | step t =>
      obtain ⟨hgiven, hcalled⟩ := hheld (List.mem_singleton_self _) t (.inl rfl)
      intro hnot
      rw [hgiven] at hnot
      exact (hcalled hnot).trans (works hnot)
  | apart t future given called =>
    obtain ⟨hgiven, hcalled⟩ := hheld (List.mem_singleton_self _) t (.inr rfl)
    exact .apart t future (hgiven.trans given) ((hcalled given).trans called) fun a ha => ne_of_unseen (hstack a ha)
  | failing => exact .failing fun a ha => ne_of_unseen (hstack a ha)

/-- What stands above is for other runs, apart from callbacks of the run itself. -/
theorem Footing.foreign {x : Option (Nat × Nat)} (hf : Footing main d.runner f g g' x)
    (hb : Rests main f g b d) (hreached : Reached base b.runner b.history) {a : Activation} (ha : a ∈ d.runner.stack)
    (hwait : a.wait ≠ .failed) : a.run ≠ main := by
  cases hf with
  | idle empty =>
    rw [empty] at ha
    cases ha
  | apart _ _ _ _ others | failing others => exact others a ha
  | working wait =>
    -- A run is driven by one activation, and here that stands beneath.
    rintro rfl
    have hr := consistent_of_reached hreached
    have hdrives : a.drives = true := hr.drives a (by rw [hb.stack]; exact List.mem_append_left _ ha) hwait
    have hpos : 0 < d.runner.stack.countP fun b => b.drives && b.run == a.run :=
      List.countP_pos_iff.mpr ⟨a, ha, by simp [hdrives]⟩
    have hdrivers := hr.drivers_eq a.run
    rw [drivers, hb.stack, List.countP_append, List.countP_cons_of_pos (by simp), if_neg (by simp)] at hdrivers
    split at hdrivers
    · omega
    · omega

/-- A continuation that was given to a step, if it belongs to the run, is used up or its step is at work above. -/
theorem Footing.reaches_next {x : Option (Nat × Nat)} {e : Option Value}
    (hf : Footing main d.runner f g g' x) (hb : Rests main f g b d) (hreached : Reached base b.runner b.history)
    (ht : t < b.runner.tickets.size) (hgiven : (b.runner.ticket t).given = true) :
    d.runner.Reaches (Unseen f main) (.next t e) := by
  have hr := consistent_of_reached hreached
  intro hcalled
  rw [← hb.ticket] at hcalled ⊢
  have hstack := hb.stack
  cases hf with
  | idle | working => exact .inl rfl
  | apart u future given called =>
    right
    intro hrun
    have hmem : (⟨main, true, .settling u⟩ : Activation) ∈ b.runner.stack := by simp [hstack]
    obtain ⟨hu, hrun'⟩ := hr.waits _ hmem u (.inr rfl)
    obtain ⟨n, hopen⟩ := hr.open_of_uncalled ht hcalled
    obtain ⟨n', hopen'⟩ := hr.open_of_uncalled hu (by rw [hb.ticket, called])
    rw [hrun] at hopen
    rw [hrun'] at hopen'
    obtain ⟨rfl, -⟩ := hopen.unique hopen'
    rw [hb.ticket, given] at hgiven
    cases hgiven
  | failing =>
    right
    intro hrun
    have hmem : (⟨main, true, .failed⟩ : Activation) ∈ b.runner.stack := by simp [hstack]
    have hreports := (hr.last_of_uncalled ht hcalled).1
    rw [hrun] at hreports
    exact hr.told _ hmem (.inl rfl) hreports

/-- A step is registered at both benches. -/
theorem Abreast.use {future : Nat → Nat} {ware : Nat} {step : Step} (h : Abreast base main b b')
    (hreached : Reached base (b.take .direct base (.use ware step)).runner (b.take .direct base (.use ware step)).history)
    (hreached' : Reached base (b'.take (.queued future) base (.use ware step)).runner
      (b'.take (.queued future) base (.use ware step)).history) :
    Abreast base main (b.take .direct base (.use ware step)) (b'.take (.queued future) base (.use ware step)) := by
  obtain ⟨d, f, g, g', hb, hb', hf⟩ := h.play
  have hrests {f : Run → Run} {g : List Activation} {c : Bench} (hc : Rests main f g c d) (mode : Mode) :
      Rests main f g (c.take mode base (.use ware step)) (d.take .direct base (.use ware step)) := by
    refine ⟨congrArg (fun r : Runner => { r with steps := r.steps.push step }) hc.runner, ?_⟩
    simp only [take]
    rw [hc.history, hc.steps]
  refine ⟨hreached, hreached', h.main_lt, h.waiting, d.take .direct base (.use ware step), f, g, g', hrests hb .direct,
    hrests hb' (.queued future), ?_⟩
  change Footing main _ f g g' b'.waiting
  generalize b'.waiting = x at hf ⊢
  cases hf with
  | idle empty => exact .idle empty
  | working wait works => exact .working wait works
  | apart t future given called others => exact .apart t future given called others
  | failing others => exact .failing others

/-- What a move of an activation on top signals belongs to that activation's run. -/
theorem signals_of_stack {a : Activation} {rest : List Activation} {x : Option Value} (hreached : Reached base r τ)
    (hs : r.stack = a :: rest) (hm : (∃ v awaitable, m = .returned v awaitable) ∨ ∃ e ordinary, m = .raised e ordinary)
    (hmem : .completed t x ∈ r.signals m) : (r.ticket t).run = a.run ∧ a.wait ≠ .failed := by
  have hgoes := (goes_of_reached hreached (a := a) (by rw [hs]; exact List.mem_cons_self)).2
  obtain ⟨i, drives, wait⟩ := a
  rcases hm with ⟨v, awaitable, rfl⟩ | ⟨e, ordinary, rfl⟩
  · simp only [signals, hs] at hmem
    cases wait with
    | seeking | failed | finished => simp at hmem
    | settling u =>
      simp only [List.mem_singleton, Deed.completed.injEq] at hmem
      obtain ⟨rfl, -⟩ := hmem
      exact ⟨hgoes t (.inr rfl), Wait.noConfusion⟩
    | step u =>
      dsimp only at hmem
      split at hmem
      · cases hmem
      · simp only [List.mem_singleton, Deed.completed.injEq] at hmem
        obtain ⟨rfl, -⟩ := hmem
        exact ⟨hgoes t (.inl rfl), Wait.noConfusion⟩
  · simp only [signals, hs] at hmem
    cases wait with
    | seeking | failed | finished => simp at hmem
    | settling u | step u =>
      dsimp only at hmem
      split at hmem
      · simp only [List.mem_singleton, Deed.completed.injEq] at hmem
        obtain ⟨rfl, -⟩ := hmem
        refine ⟨hgoes t ?_, Wait.noConfusion⟩
        simp
      · cases hmem

/-- Somebody who works for another run ends, or a callback of the run itself does, above what is beneath. -/
theorem Footing.ends {a : Activation} {rest : List Activation} (hf : Footing main d.runner f g g' b'.waiting)
    (hb : Rests main f g b d) (hb' : Rests main id g' b' d) (hp : Paired base main mode b b' m m)
    (hs : d.runner.stack = a :: rest)
    (hm : (∃ v awaitable, m = .returned v awaitable ∧ (awaitable = true → a.run = main)) ∨ ∃ e ordinary, m = .raised e ordinary) :
    Abreast base main (b.move .direct base m) (b'.move mode base m) := by
  have ha : a ∈ d.runner.stack := by rw [hs]; exact List.mem_cons_self
  have hstack : b.runner.stack = a :: (rest ++ g) := by rw [hb.stack, hs, List.cons_append]
  have hunseen := hf.unseen a ha
  have hgoes := (hb.goes hp.reached a rest hs).2
  have htop : d.runner.Reaches (Unseen f main) m := by
    have hreach : ∃ a rest, d.runner.stack = a :: rest ∧ d.runner.Goes a (Unseen f main) :=
      ⟨a, rest, hs, hunseen, fun t ht => by rw [hgoes t ht]; exact hunseen⟩
    rcases hm with ⟨v, awaitable, rfl, -⟩ | ⟨e, ordinary, rfl⟩
    · exact hreach
    · exact hreach
  have hend : (∃ v awaitable, m = .returned v awaitable) ∨ ∃ e ordinary, m = .raised e ordinary :=
    hm.imp_left fun ⟨v, awaitable, h, _⟩ => ⟨v, awaitable, h⟩
  refine hf.move hb hb' hp (by rw [hstack]; exact List.cons_ne_nil _ _) htop ?_ ?_
  · intro x hx
    obtain ⟨a', rest', v, t, rfl, hs', hwait, -⟩ := await_of_react (.inr (htop.mono fun _ _ => trivial)) hx
    rw [hs] at hs'
    cases hs'
    rcases hm with ⟨v', awaitable, heq, hmain⟩ | ⟨e, ordinary, heq⟩
    · cases heq
      exact hf.foreign hb hp.reached ha (by rw [hwait]; exact Wait.noConfusion) (hmain rfl)
    · cases heq
  · intro t x hmem
    obtain ⟨hrun, hwait⟩ := signals_of_stack hp.reached hstack hend hmem
    right
    rw [hrun]
    exact hf.foreign hb hp.reached ha hwait

end Treeworks.Bench
