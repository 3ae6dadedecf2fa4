import Treeworks.Proofs.Run.Effect

/-! Where a run stands, told by what happened: between two steps, at a step that has not completed, or at its end. Each
move leaves most runs where they stand, and takes one of them a step further. -/
namespace Treeworks
variable {base : Nat → List Nat} {r : Runner} {τ υ : History} {m : Move} {i j t u n : Nat} {e : Option Value} {x : Value}

namespace History

/-- A run is between two steps: those invoked so far, a number of them, have completed without an error. -/
structure Going (τ : History) (i n : Nat) : Prop where
  unreported : τ.reports i = []
  cleared : τ.Cleared i
  length : (τ.invocations i).length = n

/-- A run is at a step that has not completed, after a number of others. -/
structure Open (τ : History) (i t n : Nat) : Prop where
  unreported : τ.reports i = []
  uncompleted : τ.firstCompletion t = none
  last : ∃ earlier k, τ.invocations i = earlier ++ [(t, k)] ∧ earlier.length = n ∧
    ∀ x ∈ earlier, τ.firstCompletion x.1 = some none

theorem Open.mem_tickets (h : τ.Open i t n) : t ∈ τ.tickets i := by
  obtain ⟨earlier, k, hlast, -⟩ := h.last
  rw [tickets, hlast]
  simp

/-- A run is not between two steps when the last one has not completed. -/
theorem Going.not_open (h : τ.Going i n) : ¬τ.Open i t j := by
  intro hopen
  have hcleared := h.cleared t hopen.mem_tickets
  rw [hopen.uncompleted] at hcleared
  cases hcleared

/-- Only the last step of a run has not completed. -/
theorem Open.unique (h : τ.Open i t n) (h' : τ.Open i u j) : t = u ∧ n = j := by
  obtain ⟨earlier, k, hlast, hlength, -⟩ := h.last
  obtain ⟨earlier', k', hlast', hlength', -⟩ := h'.last
  rw [hlast] at hlast'
  obtain ⟨hearlier, htk⟩ := List.append_inj' hlast' rfl
  cases htk
  exact ⟨rfl, by rw [← hlength, hearlier, hlength']⟩

/-- What is neither about the steps nor about the callback of a run leaves it between its steps. -/
theorem Going.append (h : τ.Going i n) (hinv : υ.invocations i = []) (hrep : υ.reports i = []) : (τ ++ υ).Going i n where
  unreported := by rw [reports_append, h.unreported, hrep, List.append_nil]
  cleared := h.cleared.append υ hinv
  length := by rw [invocations_append, hinv, List.append_nil, h.length]

theorem Open.append (h : τ.Open i t n) (hinv : υ.invocations i = []) (hrep : υ.reports i = [])
    (hcomp : υ.firstCompletion t = none) : (τ ++ υ).Open i t n where
  unreported := by rw [reports_append, h.unreported, hrep, List.append_nil]
  uncompleted := by rw [firstCompletion_append, h.uncompleted, hcomp, Option.or_none]
  last := by
    obtain ⟨earlier, k, hlast, hlength, hcleared⟩ := h.last
    refine ⟨earlier, k, by rw [invocations_append, hinv, List.append_nil, hlast], hlength, ?_⟩
    intro y hy
    exact firstCompletion_append_of_some τ υ _ (hcleared y hy)

/-- The last step completes without an error. -/
theorem Open.clear (h : τ.Open i t n) : (τ ++ [Deed.completed t none]).Going i (n + 1) := by
  obtain ⟨earlier, k, hlast, hlength, hcleared⟩ := h.last
  have hinv : (τ ++ [Deed.completed t none]).invocations i = earlier ++ [(t, k)] := by simp [hlast]
  refine ⟨by simp [h.unreported], ?_, by rw [hinv, List.length_append, hlength, List.length_singleton]⟩
  intro u hu
  rw [tickets, hinv, List.map_append, List.mem_append] at hu
  rcases hu with hu | hu
  · obtain ⟨y, hy, rfl⟩ := List.mem_map.mp hu
    exact firstCompletion_append_of_some τ _ _ (hcleared y hy)
  · obtain rfl : u = t := by simpa using hu
    rw [firstCompletion_append, h.uncompleted]
    simp

/-- The next step is invoked. -/
theorem Going.invoke (h : τ.Going i n) (hfresh : τ.firstCompletion t = none) (k : Nat) (args : List Value) :
    (τ ++ [Deed.invoked i t k args]).Open i t n where
  unreported := by simp [h.unreported]
  uncompleted := by simp [firstCompletion_append, hfresh]
  last := by
    refine ⟨τ.invocations i, k, by simp, h.length, ?_⟩
    intro y hy
    exact firstCompletion_append_of_some τ _ _ (h.cleared y.1 (List.mem_map_of_mem hy))

end History

namespace Runner

/-- A run that waits for what stands at its index is between two steps. -/
theorem Consistent.going_of_seeks (h : r.Consistent base τ none) (hi : i < r.runs.size) (hseeks : r.Seeks i) :
    τ.Going i (r.run i).index := by
  have hlength : (τ.invocations i).length = (r.run i).index := by
    obtain ⟨hle, hsteps⟩ := h.steps i hi
    have hcount := congrArg List.length hsteps
    rw [History.invokedSteps, List.length_map, List.length_take, Nat.min_eq_left hle] at hcount
    exact hcount
  cases h.phase i hi with
  | pending _ _ _ _ _ settled => exact absurd hseeks settled
  | ended _ _ _ settled => exact absurd hseeks settled
  | going unreported cleared _ => exact ⟨unreported, cleared, hlength⟩

/-- A ticket that nobody has used is that of the step its run is at. -/
theorem Consistent.open_of_uncalled (h : r.Consistent base τ none) (ht : t < r.tickets.size)
    (hcalled : (r.ticket t).called = false) : ∃ n, τ.Open (r.ticket t).run t n := by
  obtain ⟨hreports, -, -, earlier, k, hlast, hcleared⟩ := h.last_of_uncalled ht hcalled
  have hopen : τ.firstCompletion t = none := by
    rw [← Option.not_isSome_iff_eq_none, ← (h.ticket t ht).2.2, hcalled]
    exact Bool.false_ne_true
  exact ⟨earlier.length, hreports, hopen, earlier, k, hlast, rfl, hcleared⟩

theorem Consistent.ticket_of_mem (h : r.Consistent base τ none) (ht : t ∈ τ.tickets i) :
    t < r.tickets.size ∧ (r.ticket t).run = i := by
  obtain ⟨x, hx, rfl⟩ := List.mem_map.mp ht
  exact h.invocation i x hx

theorem Consistent.ticket_of_open (h : r.Consistent base τ none) (hopen : τ.Open i t n) :
    t < r.tickets.size ∧ (r.ticket t).run = i ∧ (r.ticket t).called = false := by
  obtain ⟨ht, hrun⟩ := h.ticket_of_mem hopen.mem_tickets
  have hcalled := (h.ticket t ht).2.2
  rw [hopen.uncompleted] at hcalled
  exact ⟨ht, hrun, hcalled⟩

/-- A run whose last step has completed goes on: it waits for what stands at its index, or is about to. -/
theorem Consistent.ready_of_going (h : r.Consistent base τ none) (hi : i < r.runs.size) (hgoing : τ.Going i n)
    (hseeks : ¬r.Seeks i) : (r.run i).ready = true := by
  cases h.phase i hi with
  | going _ _ token => exact token.mpr hseeks
  | ended report reported =>
    rw [hgoing.unreported] at reported
    cases reported
  | pending earlier t k unreported idle settled last cleared hopen =>
    exact absurd ⟨unreported, hopen, earlier, k, last, rfl, cleared⟩ (hgoing.not_open (t := t) (j := earlier.length))

/-- A run that has not begun has no tickets. -/
theorem Consistent.tickets_of_size_le (h : r.Consistent base τ none) (hi : r.runs.size ≤ i) : τ.tickets i = [] := by
  rw [List.eq_nil_iff_forall_not_mem]
  intro u hu
  obtain ⟨hlt, hrun⟩ := h.ticket_of_mem hu
  have hrunlt := (h.ticket u hlt).1
  omega

/-- A run begins between no steps. -/
theorem Consistent.going_start (h : r.Consistent base τ none) (w : Nat) (inputs : List Value) (done : Value) :
    (τ ++ [Deed.started r.runs.size w inputs done]).Going r.runs.size 0 := by
  have htickets : τ.tickets r.runs.size = [] := h.tickets_of_size_le (Nat.le_refl _)
  have hgoing : τ.Going r.runs.size 0 := by
    refine ⟨h.unreported _ (Nat.le_refl _), ?_, ?_⟩
    · intro t ht
      rw [htickets] at ht
      cases ht
    · rw [History.tickets] at htickets
      rw [List.map_eq_nil_iff.mp htickets, List.length_nil]
  exact hgoing.append rfl rfl

/-- The loop over the steps is driven by one activation: while it looks for the next step, none is being invoked. -/
theorem Consistent.not_step_of_seeking {b : Activation} {rest : List Activation} (h : r.Consistent base τ none)
    (hs : r.stack = ⟨i, true, .seeking⟩ :: rest) (hb : b ∈ rest) (hrun : b.run = i) (hwait : b.wait = .step t) : False := by
  have hmem : b ∈ r.stack := by
    rw [hs]
    exact List.mem_cons_of_mem _ hb
  have hdrives : b.drives = true := by
    refine h.drives b hmem ?_
    rw [hwait]
    simp
  have hpos : 0 < rest.countP fun a => a.drives && a.run == i := by
    refine List.countP_pos_iff.mpr ⟨b, hb, ?_⟩
    simp [hdrives, hrun]
  have hdrivers := h.drivers_eq i
  rw [drivers, hs, List.countP_cons_of_pos (by simp), if_neg (by simp)] at hdrivers
  split at hdrivers
  · omega
  · omega

/-- The loop goes on, an awaitable is waited for, or the move has ended: no step and no callback is called. -/
def quiet : Directive → Bool
  | .seek .. | .await _ | .leave => true
  | .invoke .. | .call .. | .fail _ => false

theorem ne_invoke_of_quiet {d : Directive} (hd : quiet d = true) (step : Step) (args : List Value)
    (context : Option Value) : d ≠ .invoke step args context := by
  rintro rfl
  cases hd

theorem ne_fail_of_quiet {d : Directive} (hd : quiet d = true) (x : Value) : d ≠ .fail x := by
  rintro rfl
  cases hd

theorem demands_of_quiet (r : Runner) {d : Directive} (hd : quiet d = true) : r.demands d = [] := by
  cases d with
  | seek | await | leave => rfl
  | invoke | call | fail => cases hd

theorem lets_of_quiet (m : Move) {d : Directive} (hd : quiet d = true) : r.lets m d = [] :=
  lets_of_ne_fail m (ne_fail_of_quiet hd)

theorem quiet_drive (r : Runner) (i : Nat) : quiet (r.drive i).2 = true := by
  unfold Runner.drive
  dsimp only
  split
  · rfl
  · rfl

theorem quiet_resume (r : Runner) (i : Nat) (drives : Bool) : quiet (r.resume i drives).2 = true := by
  cases drives with
  | true => exact quiet_drive r i
  | false => rfl

theorem quiet_advance (r : Runner) (i : Nat) (drives : Bool) : quiet (r.advance i drives none).2 = true := by
  have hready := quiet_drive (r.updateRun i fun run => { run with ready := true }) i
  have hdriving := quiet_drive ((r.updateRun i fun run => { run with ready := true }).updateRun i
    fun run => { run with driving := true }) i
  simp only [Runner.advance]
  split
  · exact hready
  · split
    · rfl
    · exact hdriving

/-- A move that does no more than what its directive says. -/
theorem deeds_of_quiet (hd : quiet (r.react m).2.2 = true) : r.deeds m = r.signals m := by
  rw [deeds, lets_of_quiet m hd, demands_of_quiet _ hd, List.append_nil, List.append_nil]

/-- A move that signals a completion through a ticket. -/
structure Completes (r : Runner) (m : Move) (t : Nat) (e : Option Value) : Prop where
  signals : r.signals m = [.completed t e]
  react : ∃ (s : Runner) (drives : Bool), s.tickets = r.tickets ∧ s.runs = r.runs ∧
    (r.react m).1 = (s.complete t drives e).1 ∧ (r.react m).2.2 = (s.complete t drives e).2.2

namespace Completes

theorem begins (h : r.Completes m t e) : m.begins = false := by
  have hsignals := h.signals
  cases m with
  | start w inputs done => simp [Runner.signals] at hsignals
  | found | next | settled | returned | raised | watching => rfl

/-- A move that signals a completion can come. -/
theorem admits (h : r.Completes m t e) (ht : t < r.tickets.size) (he : e ≠ some .null) (steps : Nat → List Nat) :
    r.Admits steps m := by
  have hsignals := h.signals
  cases m with
  | start | found | watching => simp [Runner.signals] at hsignals
  | next u x =>
    simp only [Runner.signals, List.cons.injEq, Deed.completed.injEq, and_true] at hsignals
    obtain ⟨rfl, rfl⟩ := hsignals
    exact .next ht he
  | settled u future x =>
    simp only [Runner.signals, List.cons.injEq, Deed.completed.injEq, and_true] at hsignals
    obtain ⟨rfl, rfl⟩ := hsignals
    exact .settled future ht he
  | returned v awaitable =>
    simp only [Runner.signals] at hsignals
    split at hsignals
    case h_1 hs => exact .returned v awaitable hs (by simp)
    case h_2 hs => exact .returned v awaitable hs (by simp)
    case h_3 => cases hsignals
  | raised x ordinary =>
    simp only [Runner.signals] at hsignals
    have hcan {a : Activation} {rest : List Activation} {u : Nat} (hs : r.stack = a :: rest) (ha : a.wait ≠ .seeking)
        (hone : (if ordinary then [Deed.completed u (some x)] else []) = [.completed t e]) :
        r.Admits steps (.raised x ordinary) := by
      split at hone
      · cases hone
        refine .raised ordinary hs ha ?_
        rintro rfl
        exact he rfl
      · cases hone
    split at hsignals
    case h_1 hs => exact hcan hs (by simp) hsignals
    case h_2 hs => exact hcan hs (by simp) hsignals
    case h_3 | h_4 | h_5 => cases hsignals

theorem next (r : Runner) (t : Nat) (e : Option Value) : r.Completes (.next t e) t e :=
  ⟨rfl, r, false, rfl, rfl, rfl, rfl⟩

theorem settled (r : Runner) (t future : Nat) (e : Option Value) : r.Completes (.settled t future e) t e := by
  refine ⟨rfl, r.updateWare (r.run (r.ticket t).run).ware fun w => { w with pending := w.pending.erase future }, false,
    rfl, rfl, ?_, ?_⟩
  · cases e <;> rfl
  · cases e <;> rfl

/-- A step that was not given its continuation completes by returning anything but an awaitable. -/
theorem returned {drives : Bool} {rest : List Activation} {v : Value} {awaitable : Bool}
    (hs : r.stack = ⟨i, drives, .step t⟩ :: rest) (hgiven : (r.ticket t).given = false)
    (hv : v.isFault = true ∨ awaitable = false) : r.Completes (.returned v awaitable) t (errorOf v) := by
  have hticket : ({ r with stack := rest } : Runner).ticket t = r.ticket t := rfl
  refine ⟨?_, { r with stack := rest }, true, rfl, rfl, ?_, ?_⟩
  · rcases hv with hv | rfl
    · simp [Runner.signals, hs, hgiven, hv]
    · simp [Runner.signals, hs, hgiven]
  · simp only [Runner.react, hs, Runner.returned, hticket, hgiven, Bool.false_eq_true, if_false, errorOf]
    by_cases hfault : v.isFault
    · simp [hfault]
    · obtain rfl : awaitable = false := hv.resolve_left hfault
      simp [hfault]
  · simp only [Runner.react, hs, Runner.returned, hticket, hgiven, Bool.false_eq_true, if_false, errorOf]
    by_cases hfault : v.isFault
    · simp [hfault]
    · obtain rfl : awaitable = false := hv.resolve_left hfault
      simp [hfault]

/-- A step that has not completed does so by raising an ordinary error. -/
theorem raised {drives : Bool} {rest : List Activation} (hs : r.stack = ⟨i, drives, .step t⟩ :: rest)
    (hcalled : (r.ticket t).called = false) (x : Value) : r.Completes (.raised x true) t (some x) := by
  have hticket : ({ r with stack := rest } : Runner).ticket t = r.ticket t := rfl
  refine ⟨by simp [Runner.signals, hs], { r with stack := rest }, true, rfl, rfl, ?_, ?_⟩
  · simp [Runner.react, hs, Runner.raised, hticket, hcalled, Runner.failStep]
  · simp [Runner.react, hs, Runner.raised, hticket, hcalled, Runner.failStep]

/-- A further signal is only noted. -/
theorem again (h : r.Completes m t e) (hcalled : (r.ticket t).called = true) :
    quiet (r.react m).2.2 = true ∧ r.deeds m = [.completed t e] := by
  obtain ⟨s, drives, htickets, -, -, hdirective⟩ := h.react
  have hticket : s.ticket t = r.ticket t := by rw [Runner.ticket, htickets, ← Runner.ticket]
  have hquiet : quiet (r.react m).2.2 = true := by
    rw [hdirective]
    simp only [Runner.complete, hticket, hcalled, if_true]
    exact quiet_resume s _ drives
  exact ⟨hquiet, by rw [deeds_of_quiet hquiet, h.signals]⟩

/-- The first signal is no error. -/
theorem clears (h : r.Completes m t none) : quiet (r.react m).2.2 = true ∧ r.deeds m = [.completed t none] := by
  obtain ⟨s, drives, -, -, -, hdirective⟩ := h.react
  have hquiet : quiet (r.react m).2.2 = true := by
    rw [hdirective]
    simp only [Runner.complete]
    split
    · exact quiet_resume s _ drives
    · exact quiet_advance _ _ drives
  exact ⟨hquiet, by rw [deeds_of_quiet hquiet, h.signals]⟩

/-- The first signal is an error, which goes to the callback. -/
theorem fails (h : r.Completes m t (some x)) (hcalled : (r.ticket t).called = false) :
    (r.react m).2.2 = .call (r.run (r.ticket t).run).done [x] ∧
      r.deeds m = [.completed t (some x), .reported (r.ticket t).run (r.run (r.ticket t).run).done [x]] := by
  obtain ⟨s, drives, htickets, hruns, hrunner, hdirective⟩ := h.react
  have hticket : s.ticket t = r.ticket t := by rw [Runner.ticket, htickets, ← Runner.ticket]
  have hrun (j : Nat) : s.run j = r.run j := by rw [Runner.run, hruns, ← Runner.run]
  have hcomplete : s.complete t drives (some x) =
      ((s.mark t).push ⟨(r.ticket t).run, drives, .failed⟩, [], .call (r.run (r.ticket t).run).done [x]) := by
    simp only [Runner.complete, hticket, hcalled, Bool.false_eq_true, if_false, Runner.advance, ← hrun]
    rfl
  rw [hcomplete] at hrunner hdirective
  refine ⟨hdirective, ?_⟩
  rw [deeds, h.signals, lets_of_ne_fail m (by simp [hdirective]), hrunner, hdirective]
  rfl

end Completes

/-- A step that was given its continuation goes on by returning. -/
theorem quiet_returned_given {drives awaitable : Bool} {rest : List Activation} {v : Value}
    (hs : r.stack = ⟨i, drives, .step t⟩ :: rest) (hgiven : (r.ticket t).given = true) :
    quiet (r.react (.returned v awaitable)).2.2 = true ∧ r.deeds (.returned v awaitable) = [] := by
  have hticket : ({ r with stack := rest } : Runner).ticket t = r.ticket t := rfl
  have hquiet : quiet (r.react (.returned v awaitable)).2.2 = true := by
    simp only [Runner.react, hs, Runner.returned, hticket, hgiven, if_true]
    exact quiet_drive _ i
  exact ⟨hquiet, by rw [deeds_of_quiet hquiet]; simp [signals, hs, hgiven]⟩

/-- A step that returns an awaitable has it waited for. -/
theorem quiet_returned_awaitable {drives : Bool} {rest : List Activation} {v : Value}
    (hs : r.stack = ⟨i, drives, .step t⟩ :: rest) (hgiven : (r.ticket t).given = false) (hv : v.isFault = false) :
    (r.react (.returned v true)).2.2 = .await v ∧ r.deeds (.returned v true) = [] := by
  have hticket : ({ r with stack := rest } : Runner).ticket t = r.ticket t := rfl
  have hawait : (r.react (.returned v true)).2.2 = .await v := by
    simp [Runner.react, hs, Runner.returned, hticket, hgiven, hv]
  have hquiet : quiet (r.react (.returned v true)).2.2 = true := by rw [hawait]; rfl
  exact ⟨hawait, by rw [deeds_of_quiet hquiet]; simp [signals, hs, hgiven, hv]⟩

/-- A callback returns. -/
theorem quiet_returned_told {a : Activation} {rest : List Activation} {v : Value} {awaitable : Bool}
    (hs : r.stack = a :: rest) (ha : a.wait = .failed ∨ a.wait = .finished) :
    quiet (r.react (.returned v awaitable)).2.2 = true ∧ r.deeds (.returned v awaitable) = [] := by
  obtain ⟨i, drives, wait⟩ := a
  have hquiet : quiet (r.react (.returned v awaitable)).2.2 = true := by
    rcases ha with rfl | rfl
    · simp only [Runner.react, hs, Runner.returned]
      exact quiet_resume _ i drives
    · simp only [Runner.react, hs, Runner.returned]
      rfl
  refine ⟨hquiet, ?_⟩
  rw [deeds_of_quiet hquiet]
  rcases ha with rfl | rfl
  · simp [signals, hs]
  · simp [signals, hs]

theorem quiet_watching (r : Runner) (future : Nat) :
    quiet (r.react (.watching future)).2.2 = true ∧ r.deeds (.watching future) = [] := by
  have hquiet : quiet (r.react (.watching future)).2.2 = true := by
    simp only [Runner.react]
    split
    · rfl
    · exact quiet_drive _ _
  exact ⟨hquiet, by rw [deeds_of_quiet hquiet]; rfl⟩

/-- A run begins and looks for its first step. -/
theorem quiet_start (r : Runner) (w : Nat) (inputs : List Value) (done : Value) :
    quiet (r.react (.start w inputs done)).2.2 = true ∧
      r.deeds (.start w inputs done) = [.started r.runs.size w inputs done] := by
  have hquiet : quiet (r.react (.start w inputs done)).2.2 = true := quiet_advance _ _ false
  exact ⟨hquiet, by rw [deeds_of_quiet hquiet]; rfl⟩

/-- Nothing stands at the index of a run: its callback is called. -/
theorem found_none {a : Activation} {rest : List Activation} (hs : r.stack = a :: rest) :
    (r.react (.found none)).2.2 = .call (r.run a.run).done (.null :: (r.run a.run).inputs) ∧
      r.deeds (.found none) = [.reported a.run (r.run a.run).done (.null :: (r.run a.run).inputs)] := by
  have hreact : r.react (.found none) = (({ r with stack := rest } : Runner).push ⟨a.run, true, .finished⟩, [],
      .call (r.run a.run).done (.null :: (r.run a.run).inputs)) := by
    simp only [Runner.react, hs]
    rfl
  rw [deeds, hreact]
  exact ⟨rfl, rfl⟩

/-- A step stands at the index of a run: it is invoked, with a new ticket. -/
theorem found_some {a : Activation} {rest : List Activation} (hs : r.stack = a :: rest) (k : Nat) :
    (r.react (.found (some k))).2.2 = .invoke (r.step k) (argumentsOf (r.step k) (r.run a.run).inputs r.tickets.size)
        (if (r.step k).takesContext then some (r.ware (r.run a.run).ware).context else none) ∧
      (r.react (.found (some k))).1.stack = ⟨a.run, true, .step r.tickets.size⟩ :: rest ∧
      (r.react (.found (some k))).1.ticket r.tickets.size =
        ⟨a.run, k, (r.step k).takesNext (r.run a.run).inputs.length, false⟩ ∧
      r.deeds (.found (some k)) = [.invoked a.run r.tickets.size k
        (argumentsOf (r.step k) (r.run a.run).inputs r.tickets.size)] := by
  have hproceed : ({ r with stack := rest } : Runner).proceed a.run (some k) =
      (({ r.updateRun a.run fun run => { run with index := run.index + 1 } with
          tickets := r.tickets.push ⟨a.run, k, (r.step k).takesNext (r.run a.run).inputs.length, false⟩
          stack := rest } : Runner).push ⟨a.run, true, .step r.tickets.size⟩,
        .invoke (r.step k) (argumentsOf (r.step k) (r.run a.run).inputs r.tickets.size)
          (if (r.step k).takesContext then some (r.ware (r.run a.run).ware).context else none)) := rfl
  have hreact : r.react (.found (some k)) = ((({ r with stack := rest } : Runner).proceed a.run (some k)).1, [],
      (({ r with stack := rest } : Runner).proceed a.run (some k)).2) := by
    simp only [Runner.react, hs]
  rw [deeds, hreact, hproceed]
  refine ⟨rfl, rfl, ?_, ?_⟩
  · exact ticket_addTicket_self { r.updateRun a.run _ with stack := _ } _
  · have hticket := ticket_addTicket_self { r.updateRun a.run fun run => { run with index := run.index + 1 } with
      stack := ⟨a.run, true, .step r.tickets.size⟩ :: rest }
      ⟨a.run, k, (r.step k).takesNext (r.run a.run).inputs.length, false⟩
    exact congrArg (fun x : Ticket => [Deed.invoked a.run r.tickets.size x.step
      (argumentsOf (r.step k) (r.run a.run).inputs r.tickets.size)]) hticket

theorem size_tickets_found {a : Activation} {rest : List Activation} (hs : r.stack = a :: rest) (k : Nat) :
    (r.react (.found (some k))).1.tickets.size = r.tickets.size + 1 := by
  simp only [Runner.react, hs]
  exact Array.size_push _

/-- A view that shows only what is demanded sees no more of a move than that. -/
theorem filterMap_deeds {β : Type} (r : Runner) (m : Move) (f : Deed → Option β)
    (hstarted : ∀ j w inputs done, f (.started j w inputs done) = none) (hcompleted : ∀ t e, f (.completed t e) = none)
    (hescaped : ∀ j t x, f (.escaped j t x) = none) (hrefused : ∀ j x, f (.refused j x) = none) :
    (r.deeds m).filterMap f = ((r.react m).1.demands (r.react m).2.2).filterMap f := by
  have hsignals : (r.signals m).filterMap f = [] := by
    cases m with
    | start | next | settled => simp [signals, hstarted, hcompleted]
    | found | watching => rfl
    | returned v awaitable =>
      simp only [signals]
      split
      · simp [hcompleted]
      · split
        · rfl
        · simp [hcompleted]
      · rfl
    | raised e ordinary =>
      simp only [signals]
      split
      · split
        · simp [hcompleted]
        · rfl
      · split
        · simp [hcompleted]
        · rfl
      · simp [hrefused]
      · simp [hrefused]
      · rfl
  have hlets : (r.lets m (r.react m).2.2).filterMap f = [] := by
    unfold lets
    split
    · split
      · simp [hescaped]
      · simp [hescaped]
      · rfl
    · rfl
  rw [deeds, List.filterMap_append, List.filterMap_append, hsignals, hlets, List.nil_append, List.nil_append]

/-- No move registers a step. -/
theorem registered_deeds (r : Runner) (m : Move) (w : Nat) : (r.deeds m).registered w = [] := by
  rw [History.registered, filterMap_deeds r m _ (fun _ _ _ _ => rfl) (fun _ _ => rfl) (fun _ _ _ => rfl) fun _ _ => rfl]
  unfold demands
  split
  · split <;> rfl
  · split <;> rfl
  · rfl

/-- A step is invoked by no move but one that asks for that. -/
theorem invocations_deeds (hd : ∀ step args context, (r.react m).2.2 ≠ .invoke step args context) (i : Nat) :
    (r.deeds m).invocations i = [] := by
  rw [History.invocations, filterMap_deeds r m _ (fun _ _ _ _ => rfl) (fun _ _ => rfl) (fun _ _ _ => rfl)
    fun _ _ => rfl]
  cases hdirective : (r.react m).2.2 with
  | invoke step args context => exact absurd hdirective (hd step args context)
  | seek | await | leave | fail => rfl
  | call done args =>
    rw [demands]
    split <;> rfl

/-- A run begins only with the move that starts it. -/
theorem started_mem_deeds {w : Nat} {inputs : List Value} {done : Value} (hd : .started i w inputs done ∈ r.deeds m) :
    m = .start w inputs done ∧ i = r.runs.size := by
  rw [Runner.deeds, List.mem_append, List.mem_append] at hd
  rcases hd with (hd | hd) | hd
  · cases m with
    | start => simpa [Runner.signals, and_comm, and_assoc, eq_comm] using hd
    | found | watching => cases hd
    | next | settled => simp [Runner.signals] at hd
    | returned v awaitable =>
      simp only [Runner.signals] at hd
      split at hd
      · simp at hd
      · split at hd <;> simp at hd
      · cases hd
    | raised e ordinary =>
      simp only [Runner.signals] at hd
      split at hd
      · split at hd <;> simp at hd
      · split at hd <;> simp at hd
      · simp at hd
      · simp at hd
      · cases hd
  · unfold Runner.lets at hd
    split at hd
    · split at hd <;> simp at hd
    · cases hd
  · unfold Runner.demands at hd
    split at hd
    · split at hd <;> simp at hd
    · split at hd <;> simp at hd
    · cases hd

end Runner
end Treeworks
