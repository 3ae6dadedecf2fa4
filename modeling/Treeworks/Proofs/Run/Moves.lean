import Treeworks.Proofs.Run.Steps

/-! Every move that can come keeps the invariant, and so does every sequence of moves. -/
namespace Treeworks.Runner
variable {r r' : Runner} {base : Nat → List Nat} {τ υ : History} {held held' : Option Nat} {i t : Nat}

/-- The run whose driver is held when an activation has been taken off the stack. -/
def hold (drives : Bool) (i : Nat) : Option Nat := if drives then some i else none

@[simp] theorem hold_true : hold true i = some i := rfl

@[simp] theorem hold_false : hold false i = none := rfl

/-- Wares and steps do not matter to the tables. -/
theorem Tables.equip (h : r.Tables base τ held) (wares : Array Ware) (steps : Array Step) :
    ({ r with wares := wares, steps := steps } : Runner).Tables base τ held where
  run_lt := h.run_lt
  drives := h.drives
  waits := h.waits
  told := h.told
  drivers_eq := h.drivers_eq
  held_lt := h.held_lt
  ticket := h.ticket
  fresh := h.fresh
  invocation := h.invocation
  nodup := h.nodup
  unreported := h.unreported
  started := h.started
  steps := h.steps

/-- A run whose driver is held has no driver on the stack. -/
theorem Tables.drivers_of_held (h : r.Tables base τ (some i)) :
    r.drivers i = 0 ∧ (r.run i).driving = true := by
  have hi := h.drivers_eq i
  by_cases hd : (r.run i).driving
  · rw [if_pos rfl, if_pos hd] at hi
    exact ⟨by omega, hd⟩
  · rw [if_pos rfl, if_neg hd] at hi
    omega

/-- What waits for the step at an index drives its run. -/
theorem Tables.not_seeks (h : r.Tables base τ held) (hi : r.drivers i = 0) : ¬ r.Seeks i := by
  rintro ⟨a, ha, hrun, hwait⟩
  have hd : a.drives = true := h.drives a ha (by rw [hwait]; exact Wait.noConfusion)
  have := List.countP_eq_zero.mp hi a ha
  simp [hd, hrun] at this

namespace Consistent

/-- Wares and steps do not matter. -/
theorem equip (h : r.Consistent base τ held) (wares : Array Ware) (steps : Array Step) :
    ({ r with wares := wares, steps := steps } : Runner).Consistent base τ held where
  toTables := h.toTables.equip wares steps
  phase := by
    intro i hi
    exact (h.phase i hi).congr rfl Iff.rfl rfl rfl fun _ _ => rfl
  lawful := h.lawful

/-- The invariant holds before the first move. -/
theorem begin (hruns : r.runs = #[]) (htickets : r.tickets = #[]) (hstack : r.stack = []) :
    r.Consistent base [] none where
  run_lt := by simp [hstack]
  drives := by simp [hstack]
  waits := by simp [hstack]
  told := by simp [hstack]
  drivers_eq := by
    intro i
    have hrun : r.run i = default := by rw [Runner.run, hruns]; rfl
    rw [drivers, hstack, hrun]
    rfl
  held_lt := by simp
  ticket := by simp [htickets]
  fresh := fun _ _ => rfl
  invocation := by simp [History.invocations]
  nodup := by simp [History.tickets, History.invocations]
  unreported := fun _ _ => rfl
  started := by simp [hruns]
  steps := by simp [hruns]
  phase := by simp [hruns]
  lawful := .nil base

/-- A deed that no view of a run or a ticket shows leaves the invariant as it is. -/
theorem pass (h : r.Consistent base τ held) {x : Deed} (hinv : ∀ i, History.invocation? i x = none)
    (hcomp : ∀ t, History.completion? t x = none) (hrep : ∀ i, History.report? i x = none)
    (hstart : ∀ i w inputs done, .started i w inputs done ≠ x) : r.Consistent base (τ ++ [x]) held where
  toTables := h.toTables.pass hinv hcomp hrep hstart
  phase := by
    intro i hi
    refine (h.phase i hi).congr rfl Iff.rfl ?_ ?_ fun t _ => ?_
    · rw [History.invocations_append, History.invocations_singleton, hinv, Option.toList_none, List.append_nil]
    · rw [History.reports_append, History.reports_singleton, hrep, Option.toList_none, List.append_nil]
    · rw [History.firstCompletion_append, History.firstCompletion_singleton, hcomp, Option.or_none]
  lawful := by
    refine h.lawful.snoc ?_
    cases x with
    | invoked j t k args => simpa using hinv j
    | reported j d args => simpa using hrep j
    | registered | started | completed | escaped | refused => trivial

/-- An activation that waits for anything but a step at an index is taken off the stack. -/
theorem pop {a : Activation} {rest : List Activation} (h : r.Consistent base τ none)
    (hs : r.stack = a :: rest) (ha : a.wait ≠ .seeking) :
    ({ r with stack := rest } : Runner).Consistent base τ (hold a.drives a.run) where
  toTables := h.toTables.pop hs
  phase := by
    intro i hi
    exact (h.phase i hi).congr rfl (Seeks.of_cons hs ha) rfl rfl fun _ _ => rfl
  lawful := h.lawful

/-- The loop over the steps of a run ends, and with it the hold on its driver. -/
theorem release (h : r.Consistent base τ (some i)) :
    (r.updateRun i fun run => { run with driving := false }).Consistent base τ none := by
  have hi : i < r.runs.size := h.held_lt i rfl
  obtain ⟨hdrivers, -⟩ := h.drivers_of_held
  refine ⟨h.toTables.update hi _ (fun run => rfl) (fun j hj => ?_) ?_, fun j hj => ?_, h.lawful⟩
  · simp [Ne.symm hj]
  · simpa using hdrivers
  · rw [size_runs_updateRun] at hj
    refine (h.phase j hj).congr ?_ Iff.rfl rfl rfl fun _ _ => rfl
    by_cases hij : i = j
    · subst hij
      rw [run_updateRun_self r i _ hi]
    · rw [run_updateRun_of_ne r i j _ hij]

/-- The loop over the steps of a run goes on. -/
theorem drive (h : r.Consistent base τ (some i)) :
    (r.drive i).1.Consistent base (τ ++ (r.drive i).1.demands (r.drive i).2) none := by
  have hi : i < r.runs.size := h.held_lt i rfl
  obtain ⟨hdrivers, hdriving⟩ := h.drivers_of_held
  unfold Runner.drive
  by_cases hready : (r.run i).ready
  · -- The token goes from the flag of the run to the activation that seeks its next step.
    simp only [hready, if_true, demands, List.append_nil]
    have hupdate : (r.updateRun i fun run => { run with ready := false }).Tables base τ (some i) :=
      h.toTables.update hi _ (fun run => rfl) (fun j _ => Iff.rfl) (by rw [hdrivers, hdriving]; simp)
    refine ⟨hupdate.push ⟨i, true, .seeking⟩ (by simpa using hi) (fun _ => rfl) (by simp) (by simp) rfl,
      fun j hj => ?_, h.lawful⟩
    by_cases hij : i = j
    · subst hij
      cases h.phase i hi with
      | pending _ _ _ _ idle => rw [hready] at idle; cases idle
      | ended _ _ idle => rw [hready] at idle; cases idle
      | going unreported cleared =>
        refine .going unreported cleared ?_
        rw [run_push, run_updateRun_self r i _ hi, seeks_push]
        simp
    · refine (h.phase j (by simpa using hj)).congr ?_ ?_ rfl rfl fun _ _ => rfl
      · rw [run_push, run_updateRun_of_ne r i j _ hij]
      · rw [seeks_push]
        simp [hij, Seeks]
  · simp only [hready, Bool.false_eq_true, if_false, demands, List.append_nil]
    exact h.release

/-- The loop goes on if its driver is held. -/
theorem resume {drives : Bool} (h : r.Consistent base τ (hold drives i)) :
    (r.resume i drives).1.Consistent base (τ ++ (r.resume i drives).1.demands (r.resume i drives).2) none := by
  cases drives with
  | true => exact h.drive
  | false => simpa [Runner.resume, demands] using h

/-- A further signal through a ticket that is used up changes nothing. -/
theorem again (h : r.Consistent base τ held) (ht : t < r.tickets.size) (hcalled : (r.ticket t).called = true)
    (e : Option Value) : r.Consistent base (τ ++ [.completed t e]) held := by
  refine ⟨?_, fun j hj => ?_, h.lawful.snoc trivial⟩
  · have hsignal := h.toTables.signal ht e
    rwa [mark_of_called r t hcalled] at hsignal
  · refine (h.phase j hj).congr rfl Iff.rfl (by simp) (by simp) fun u _ => ?_
    rw [History.firstCompletion_append, History.firstCompletion_singleton]
    by_cases htu : t = u
    · subst htu
      have hsome : (τ.firstCompletion t).isSome = true := by rw [← (h.ticket t ht).2.2, hcalled]
      obtain ⟨e', he'⟩ := Option.isSome_iff_exists.mp hsome
      rw [he', Option.some_or]
    · simp [htu]

/-- A ticket that nobody has used is the last one of its run, whose other steps are cleared. -/
theorem last_of_uncalled (h : r.Consistent base τ held) (ht : t < r.tickets.size)
    (hcalled : (r.ticket t).called = false) : τ.reports (r.ticket t).run = [] ∧
      (r.run (r.ticket t).run).ready = false ∧ ¬ r.Seeks (r.ticket t).run ∧
      ∃ earlier k, τ.invocations (r.ticket t).run = earlier ++ [(t, k)] ∧
        ∀ x ∈ earlier, τ.firstCompletion x.1 = some none := by
  obtain ⟨hi, hmem, hcomp⟩ := h.ticket t ht
  have hopen : τ.firstCompletion t = none := by
    rw [hcalled] at hcomp
    exact Option.not_isSome_iff_eq_none.mp (by rw [← hcomp]; exact Bool.false_ne_true)
  have htick : t ∈ τ.tickets (r.ticket t).run := List.mem_map_of_mem (f := (·.1)) hmem
  cases h.phase _ hi with
  | going _ cleared => exact absurd (cleared t htick) (by simp [hopen])
  | ended _ _ _ _ completed => exact absurd (completed t htick) (by simp [hopen])
  | pending earlier u k unreported idle settled last cleared =>
    refine ⟨unreported, idle, settled, earlier, k, ?_, cleared⟩
    rw [last, List.mem_append, List.mem_singleton, Prod.mk.injEq] at hmem
    rcases hmem with hmem | ⟨rfl, -⟩
    · exact absurd (cleared _ hmem) (by simp [hopen])
    · exact last

/-- What a signal through an unused ticket leaves of another run. -/
theorem signal_of_ne {r' : Runner} (h : r.Consistent base τ held) (ht : t < r.tickets.size)
    (hi : i < r.runs.size) (hne : (r.ticket t).run ≠ i) (e : Option Value) (x : History)
    (hready : (r'.run i).ready = (r.run i).ready) (hseeks : r'.Seeks i ↔ r.Seeks i)
    (hinv : x.invocations i = []) (hrep : x.reports i = []) (hfirst : ∀ u, x.firstCompletion u = none) :
    r'.Phase (τ ++ .completed t e :: x) i := by
  refine (h.phase i hi).congr hready hseeks ?_ ?_ fun u hu => ?_
  · rw [← List.singleton_append, History.invocations_append, History.invocations_append, hinv]
    simp
  · rw [← List.singleton_append, History.reports_append, History.reports_append, hrep]
    simp
  · have htu : t ≠ u := by
      rintro rfl
      obtain ⟨y, hy, rfl⟩ := List.mem_map.mp hu
      exact hne (h.invocation i y hy).2
    rw [← List.singleton_append, History.firstCompletion_append, History.firstCompletion_append, hfirst,
      History.firstCompletion_singleton]
    simp [htu]

/-- The first signal of a ticket is no error: the token comes back to the flag of the run. -/
theorem clear (h : r.Consistent base τ held) (ht : t < r.tickets.size)
    (hcalled : (r.ticket t).called = false) :
    ((r.mark t).updateRun (r.ticket t).run fun run => { run with ready := true }).Consistent base
      (τ ++ [.completed t none]) held := by
  have hi : (r.ticket t).run < r.runs.size := (h.ticket t ht).1
  obtain ⟨hreports, hready, hseeks, earlier, k, hlast, hcleared⟩ := h.last_of_uncalled ht hcalled
  have hsignal := h.toTables.signal ht none
  refine ⟨hsignal.update hi _ (fun run => rfl) (fun j _ => Iff.rfl) ?_, fun j hj => ?_, h.lawful.snoc trivial⟩
  · exact hsignal.drivers_eq _
  by_cases hij : (r.ticket t).run = j
  · subst hij
    refine .going (by simpa using hreports) (fun u hu => ?_) ?_
    · have hu' : u ∈ τ.tickets (r.ticket t).run := by simpa using hu
      rw [History.tickets, hlast, List.map_append, List.mem_append] at hu'
      rcases hu' with hu' | hu'
      · obtain ⟨x, hx, rfl⟩ := List.mem_map.mp hu'
        exact History.firstCompletion_append_of_some τ _ _ (hcleared x hx)
      · obtain rfl : u = t := by simpa using hu'
        have hnone : τ.firstCompletion u = none := by
          rw [← Option.not_isSome_iff_eq_none, ← (h.ticket u ht).2.2, hcalled]
          exact Bool.false_ne_true
        rw [History.firstCompletion_append, hnone]
        simp
    · rw [run_updateRun_self _ _ _ (by simpa using hi)]
      exact ⟨fun _ => hseeks, fun _ => rfl⟩
  · refine h.signal_of_ne ht (by simpa using hj) hij none [] ?_ Iff.rfl rfl rfl fun _ => rfl
    rw [run_updateRun_of_ne _ _ _ _ hij, run_mark]

/-- The first signal of a ticket is an error: the token goes into the report. -/
theorem fail {drives : Bool} (h : r.Consistent base τ (hold drives (r.ticket t).run)) (ht : t < r.tickets.size)
    (hcalled : (r.ticket t).called = false) {e : Value} (he : e ≠ .null) :
    ((r.mark t).push ⟨(r.ticket t).run, drives, .failed⟩).Consistent base
      (τ ++ [.completed t (some e), .reported (r.ticket t).run (r.run (r.ticket t).run).done [e]]) none := by
  have hi : (r.ticket t).run < r.runs.size := (h.ticket t ht).1
  obtain ⟨hreports, hready, hseeks, earlier, k, hlast, hcleared⟩ := h.last_of_uncalled ht hcalled
  have hnone : τ.firstCompletion t = none := by
    rw [← Option.not_isSome_iff_eq_none, ← (h.ticket t ht).2.2, hcalled]
    exact Bool.false_ne_true
  have hfirst : (τ ++ [Deed.completed t (some e)]).firstCompletion t = some (some e) := by
    rw [History.firstCompletion_append, hnone]
    simp
  -- The signal and the report are two deeds, which are added one after the other.
  have hsplit : ∀ x : Deed, τ ++ [.completed t (some e), x] = τ ++ [.completed t (some e)] ++ [x] := by simp
  have hsignal := h.toTables.signal ht (some e)
  have hreport := hsignal.report (i := (r.ticket t).run) hi (r.run (r.ticket t).run).done [e]
  rw [hsplit]
  refine ⟨?_, fun j hj => ?_, ?_⟩
  · exact hreport.push ⟨(r.ticket t).run, drives, .failed⟩ hi (by simp) (by simp)
      (fun _ => by rw [History.reports_append]; simp) rfl
  · by_cases hij : (r.ticket t).run = j
    · subst hij
      refine .ended ((r.run (r.ticket t).run).done, [e]) ?_ hready ?_ fun u hu => ?_
      · rw [History.reports_append, History.reports_append, hreports]
        simp
      · rw [seeks_push]
        simp only [reduceCtorEq, and_false, false_or]
        exact hseeks
      · have hu' : u ∈ τ.tickets (r.ticket t).run := by
          rw [History.tickets_append, History.tickets_append] at hu
          simpa using hu
        rw [History.tickets, hlast, List.map_append, List.mem_append] at hu'
        rcases hu' with hu' | hu'
        · obtain ⟨x, hx, rfl⟩ := List.mem_map.mp hu'
          rw [List.append_assoc, History.firstCompletion_append_of_some τ _ _ (hcleared x hx)]
          rfl
        · obtain rfl : u = t := by simpa using hu'
          rw [History.firstCompletion_append_of_some _ _ _ hfirst]
          rfl
    · rw [← hsplit]
      refine h.signal_of_ne ht hj hij (some e) [_] rfl ?_ rfl (by simp [hij]) fun _ => rfl
      rw [seeks_push]
      simp only [hij, false_and, false_or]
      exact Iff.rfl
  · refine Lawful.snoc (h.lawful.snoc (x := .completed t (some e)) trivial) ?_
    refine ⟨_, _, _, (hsignal.started _ _ _ _).mpr ⟨hi, rfl, rfl, rfl⟩, by simpa using hreports, rfl, .inr ?_⟩
    exact ⟨earlier, t, k, e, rfl, he, by simpa using hlast, hfirst⟩

/-- A run goes on: in the loop that its caller holds, in the loop that is active, or in a new one. -/
theorem enter (drives : Bool) (h : r.Consistent base τ (hold drives i)) (hi : i < r.runs.size) :
    ∀ p, p = (if drives then r.drive i else if (r.run i).driving then (r, .leave)
        else (r.updateRun i fun run => { run with driving := true }).drive i) →
      p.1.Consistent base (τ ++ p.1.demands p.2) none := by
  rintro p rfl
  cases drives with
  | true => exact h.drive
  | false =>
    by_cases hdriving : (r.run i).driving
    · simpa [hdriving, demands] using h
    · simp only [Bool.false_eq_true, if_false, hdriving]
      have hdrivers := h.drivers_eq i
      rw [hold_false, if_neg hdriving] at hdrivers
      have hzero : r.drivers i = 0 := by omega
      have hupdate : (r.updateRun i fun run => { run with driving := true }).Tables base τ (some i) :=
        h.toTables.update hi _ (fun run => rfl) (fun j hj => by simp [Ne.symm hj]) (by simp [hzero])
      refine drive ⟨hupdate, fun j hj => ?_, h.lawful⟩
      · refine (h.phase j (by simpa using hj)).congr ?_ Iff.rfl rfl rfl fun _ _ => rfl
        by_cases hij : i = j
        · subst hij
          rw [run_updateRun_self r i _ hi]
        · rw [run_updateRun_of_ne r i j _ hij]

/-- A call of a continuation keeps the invariant, be it the first one or not. -/
theorem complete (drives : Bool) (h : r.Consistent base τ (hold drives (r.ticket t).run))
    (ht : t < r.tickets.size) {e : Option Value} (he : e ≠ some .null) :
    (r.complete t drives e).1.Consistent base
      (τ ++ (.completed t e :: (r.complete t drives e).1.demands (r.complete t drives e).2.2)) none := by
  have hi : (r.ticket t).run < r.runs.size := (h.ticket t ht).1
  have hcons (x : History) : τ ++ .completed t e :: x = τ ++ [.completed t e] ++ x := by simp
  unfold Runner.complete
  by_cases hcalled : (r.ticket t).called
  · simp only [hcalled, if_true]
    rw [hcons]
    exact (h.again ht hcalled e).resume
  · simp only [hcalled, Bool.false_eq_true, if_false]
    rw [Bool.not_eq_true] at hcalled
    cases e with
    | none =>
      rw [hcons]
      have hrun : ((r.mark t).updateRun (r.ticket t).run fun run => { run with ready := true }).run
          (r.ticket t).run = { (r.mark t).run (r.ticket t).run with ready := true } :=
        run_updateRun_self _ _ _ hi
      exact (h.clear ht hcalled).enter drives (by simpa using hi) _ (by simp [advance, mark, updateRun, Runner.run])
    | some e => exact h.fail ht hcalled (by simpa using he)

/-- A run begins and takes its first step. -/
theorem start (h : r.Consistent base τ none) (w : Nat) (inputs : List Value) (done : Value) :
    (r.react (.start w inputs done)).1.Consistent base (τ ++ r.deeds (.start w inputs done)) none := by
  have htables := h.toTables.start w inputs done
  have hnone : τ.invocations r.runs.size = [] := by
    rw [List.eq_nil_iff_forall_not_mem]
    intro x hx
    obtain ⟨hlt, hrun⟩ := h.invocation _ x hx
    have := (h.ticket x.1 hlt).1
    omega
  generalize hr' : ({ r with runs := r.runs.push ⟨w, inputs, done, 0, false, false⟩ } : Runner) = r' at htables
  have hsize : r'.runs.size = r.runs.size + 1 := by rw [← hr']; simp
  have hold (j : Nat) (hj : r.runs.size ≠ j) : r'.run j = r.run j := by
    rw [← hr']
    simp [Runner.run, Array.getElem?_push, hj.symm]
  have hnew : r'.run r.runs.size = ⟨w, inputs, done, 0, false, false⟩ := by
    rw [← hr']
    simp [Runner.run]
  have hseeks (j : Nat) : r'.Seeks j ↔ r.Seeks j := by rw [← hr']; exact Iff.rfl
  have hlt : r.runs.size < r'.runs.size := by omega
  -- The new run holds its token as a flag, without steps behind it.
  have hready : (r'.updateRun r.runs.size fun run => { run with ready := true }).Consistent base
      (τ ++ [.started r.runs.size w inputs done]) none := by
    refine ⟨htables.update hlt _ (fun run => rfl) (fun j _ => Iff.rfl) ?_, fun j hj => ?_,
      h.lawful.snoc trivial⟩
    · exact htables.drivers_eq _
    by_cases hij : r.runs.size = j
    · subst hij
      refine .going ?_ ?_ ?_
      · simpa using h.unreported _ (Nat.le_refl _)
      · intro t ht
        simp [History.tickets, hnone] at ht
      · rw [run_updateRun_self _ _ _ hlt]
        refine ⟨fun _ => ?_, fun _ => rfl⟩
        rintro ⟨a, ha, hrun, -⟩
        have ha' : a ∈ r.stack := by rw [← hr'] at ha; exact ha
        exact absurd (h.run_lt a ha') (by omega)
    · rw [size_runs_updateRun] at hj
      refine (h.phase j (by omega)).congr ?_ (hseeks j) (by simp) (by simp) fun t _ => ?_
      · rw [run_updateRun_of_ne _ _ _ _ hij, hold j hij]
      · rw [History.firstCompletion_append]
        simp
  have hentered := hready.enter false (by simpa using hlt) _ rfl
  rw [List.append_assoc] at hentered
  subst hr'
  exact hentered

end Consistent

/-- A run has its driver and its token in hand: the next step can be invoked, or completion reported. -/
structure Turn (r : Runner) (base : Nat → List Nat) (τ : History) (i : Nat) : Prop
    extends r.Tables base τ (some i) where
  silent : τ.reports i = []
  cleared : τ.Cleared i
  idle : (r.run i).ready = false
  others : ∀ j < r.runs.size, i ≠ j → r.Phase τ j
  lawful : Lawful base τ

/-- What waited for the step at an index gives its run the token. -/
theorem Consistent.turn {a : Activation} {rest : List Activation} (h : r.Consistent base τ none)
    (hs : r.stack = a :: rest) (ha : a.wait = .seeking) :
    ({ r with stack := rest } : Runner).Turn base τ a.run := by
  have hmem : a ∈ r.stack := by rw [hs]; exact List.mem_cons_self
  have hdrives : a.drives = true := h.drives a hmem (by rw [ha]; exact Wait.noConfusion)
  have hpop := h.toTables.pop hs
  rw [if_pos hdrives] at hpop
  have hseek : r.Seeks a.run := ⟨a, hmem, rfl, ha⟩
  have hother (j : Nat) (hj : a.run ≠ j) : ({ r with stack := rest } : Runner).Seeks j ↔ r.Seeks j := by
    simp only [Seeks, hs, List.mem_cons]
    constructor
    · rintro ⟨b, hb, hb'⟩
      exact ⟨b, .inr hb, hb'⟩
    · rintro ⟨b, rfl | hb, hb', hw⟩
      · exact absurd hb' hj
      · exact ⟨b, hb, hb', hw⟩
  cases h.phase a.run (h.run_lt a hmem) with
  | pending _ _ _ _ _ settled => exact absurd hseek settled
  | ended _ _ _ settled => exact absurd hseek settled
  | going unreported cleared token =>
    refine ⟨hpop, unreported, cleared, ?_, fun j hj hij => ?_, h.lawful⟩
    · change (r.run a.run).ready = false
      rw [← Bool.not_eq_true, token]
      exact fun hn => hn hseek
    · exact (h.phase j hj).congr rfl (hother j hij) rfl rfl fun _ _ => rfl

namespace Turn

/-- A run whose driver is in hand waits for nothing. -/
theorem settled (h : r.Turn base τ i) : ¬ r.Seeks i := h.not_seeks h.drivers_of_held.1

/-- Nothing stands at the index: completion is reported. -/
theorem finish (h : r.Turn base τ i) (hk : (τ.registry base (r.run i).ware)[(r.run i).index]? = none) :
    (r.push ⟨i, true, .finished⟩).Consistent base
      (τ ++ [.reported i (r.run i).done (.null :: (r.run i).inputs)]) none := by
  have hi : i < r.runs.size := h.held_lt i rfl
  have hall : τ.invokedSteps i = τ.registry base (r.run i).ware := by
    rw [(h.steps i hi).2, List.take_of_length_le (List.getElem?_eq_none_iff.mp hk)]
  have hreport := h.toTables.report hi (r.run i).done (.null :: (r.run i).inputs)
  refine ⟨hreport.push _ hi (by simp) (by simp) (by simp) rfl, fun j hj => ?_, h.lawful.snoc ?_⟩
  · by_cases hij : i = j
    · subst hij
      refine .ended ((r.run i).done, .null :: (r.run i).inputs) (by simp [h.silent]) h.idle ?_ fun t ht => ?_
      · rw [seeks_push]
        simpa using h.settled
      · have ht' : t ∈ τ.tickets i := by simpa using ht
        rw [History.firstCompletion_append_of_some _ _ _ (h.cleared t ht')]
        rfl
    · refine (h.others j hj hij).congr rfl ?_ (by simp) (by simp [hij]) fun t _ => ?_
      · rw [seeks_push]
        simp
      · rw [History.firstCompletion_append]
        simp
  · have hstarted := (h.started i _ _ _).mpr ⟨hi, rfl, rfl, rfl⟩
    exact ⟨_, _, _, hstarted, h.silent, rfl, .inl ⟨rfl, h.cleared, hall⟩⟩

/-- A step stands at the index: it is invoked, and the token goes with it. -/
theorem invoke (h : r.Turn base τ i) {k : Nat}
    (hk : (τ.registry base (r.run i).ware)[(r.run i).index]? = some k) (given : Bool) (args : List Value) :
    (({ r.updateRun i fun run => { run with index := run.index + 1 } with
        tickets := r.tickets.push ⟨i, k, given, false⟩ } : Runner).push
      ⟨i, true, .step r.tickets.size⟩).Consistent base (τ ++ [.invoked i r.tickets.size k args]) none := by
  have hi : i < r.runs.size := h.held_lt i rfl
  have hinvoke := h.toTables.invoke hi hk given args
  generalize hr' : ({ r.updateRun i fun run => { run with index := run.index + 1 } with
    tickets := r.tickets.push ⟨i, k, given, false⟩ } : Runner) = r' at hinvoke
  have hruns : r'.runs.size = r.runs.size := by rw [← hr']; simp
  have hready (j : Nat) : (r'.run j).ready = (r.run j).ready := by
    rw [← hr']
    change ((r.updateRun i _).run j).ready = _
    by_cases hij : i = j
    · subst hij
      rw [run_updateRun_self r i _ hi]
    · rw [run_updateRun_of_ne r i j _ hij]
  have hseeks (j : Nat) : (r'.push ⟨i, true, .step r.tickets.size⟩).Seeks j ↔ r.Seeks j := by
    rw [seeks_push, ← hr']
    simp [Seeks]
  have hticket : r'.ticket r.tickets.size = ⟨i, k, given, false⟩ := by
    rw [← hr']
    simp [Runner.ticket]
  refine ⟨hinvoke.push _ (by rw [hruns]; exact hi) (by simp) ?_ (by simp) rfl, fun j hj => ?_, h.lawful.snoc ?_⟩
  · intro t ht
    obtain rfl : r.tickets.size = t := by simpa using ht
    rw [hticket, ← hr']
    simp
  · rw [runs_push, hruns] at hj
    by_cases hij : i = j
    · subst hij
      refine .pending (τ.invocations i) r.tickets.size k (by simpa using h.silent) ?_ ?_ (by simp) ?_ ?_
      · rw [run_push, hready, h.idle]
      · rw [hseeks]
        exact h.settled
      · intro x hx
        exact History.firstCompletion_append_of_some _ _ _ (h.cleared x.1 (List.mem_map_of_mem hx))
      · rw [History.firstCompletion_append, h.fresh _ (Nat.le_refl _)]
        simp
    · refine (h.others j hj hij).congr ?_ (hseeks j) (by simp [hij]) (by simp) fun t _ => ?_
      · rw [run_push, hready]
      · rw [History.firstCompletion_append]
        simp
  · obtain ⟨hlt, hget⟩ := List.getElem?_eq_some_iff.mp hk
    have hstarted := (h.started i _ _ _).mpr ⟨hi, rfl, rfl, rfl⟩
    refine ⟨_, _, _, hstarted, h.silent, h.cleared, ?_, ?_⟩
    · intro hmem
      obtain ⟨x, hx, hxt⟩ := List.mem_map.mp hmem
      have := (h.invocation i x hx).1
      omega
    · rw [(h.steps i hi).2, ← hget, ← List.take_succ_eq_append_getElem hlt]
      exact List.take_prefix _ _

/-- Goes on with what the list of the ware has at the index. -/
theorem proceed (h : r.Turn base τ i) :
    let p := r.proceed i (τ.registry base (r.run i).ware)[(r.run i).index]?
    p.1.Consistent base (τ ++ p.1.demands p.2) none := by
  cases hk : (τ.registry base (r.run i).ware)[(r.run i).index]? with
  | none => exact h.finish hk
  | some k =>
    have hinvoke := h.invoke hk ((r.step k).takesNext (r.run i).inputs.length)
      (argumentsOf (r.step k) (r.run i).inputs r.tickets.size)
    simpa [Runner.proceed, demands, Runner.ticket, Runner.run, updateRun, push] using hinvoke

end Turn

theorem drive_ne_fail (r : Runner) (i : Nat) (x : Value) : (r.drive i).2 ≠ .fail x := by
  by_cases hready : (r.run i).ready <;> simp [Runner.drive, hready]

theorem resume_ne_fail (r : Runner) (i : Nat) (drives : Bool) (x : Value) : (r.resume i drives).2 ≠ .fail x := by
  cases drives with
  | true => exact drive_ne_fail r i x
  | false => exact Directive.noConfusion

theorem advance_ne_fail (r : Runner) (i : Nat) (drives : Bool) (e : Option Value) (x : Value) :
    (r.advance i drives e).2 ≠ .fail x := by
  cases e with
  | some e => exact Directive.noConfusion
  | none =>
    simp only [advance]
    split
    · exact drive_ne_fail _ i x
    · split
      · exact Directive.noConfusion
      · exact drive_ne_fail _ i x

/-- A call of a continuation lets no error through. -/
theorem complete_ne_fail (r : Runner) (t : Nat) (drives : Bool) (e : Option Value) (x : Value) :
    (r.complete t drives e).2.2 ≠ .fail x := by
  by_cases hcalled : (r.ticket t).called
  · simpa [Runner.complete, hcalled] using resume_ne_fail r _ drives x
  · simpa [Runner.complete, hcalled] using advance_ne_fail _ _ drives e x

theorem lets_of_ne_fail (m : Move) {d : Directive} (hd : ∀ x, d ≠ .fail x) : r.lets m d = [] := by
  cases m with
  | raised e ordinary =>
    cases d with
    | fail x => exact absurd rfl (hd x)
    | seek | invoke | await | call | leave => rfl
  | start | found | next | settled | returned | watching => rfl

theorem errorOf_ne_null (v : Value) : errorOf v ≠ some .null := by
  unfold errorOf
  split
  · rename_i h
    rintro ⟨⟩
    cases h
  · simp

namespace Consistent

/-- An outside call has returned. -/
theorem returned {a : Activation} {rest : List Activation} (h : r.Consistent base τ none)
    (hs : r.stack = a :: rest) (ha : a.wait ≠ .seeking) (v : Value) (awaitable : Bool) :
    (r.react (.returned v awaitable)).1.Consistent base (τ ++ r.deeds (.returned v awaitable)) none := by
  have hmem : a ∈ r.stack := by rw [hs]; exact List.mem_cons_self
  have hpop := h.pop hs ha
  obtain ⟨i, drives, wait⟩ := a
  have hdrives := h.drives _ hmem
  have hwaits := h.waits _ hmem
  simp only [deeds, signals, lets, react, hs, Runner.returned]
  cases wait with
  | seeking => exact absurd rfl ha
  | finished =>
    obtain rfl : drives = true := hdrives (by simp)
    simpa [demands] using hpop.release
  | failed => simpa using hpop.resume
  | settling t =>
    obtain rfl : drives = true := hdrives (by simp)
    obtain ⟨ht, hrun⟩ := hwaits t (.inr rfl)
    obtain rfl : (r.ticket t).run = i := hrun
    have hcomplete := complete true hpop ht (errorOf_ne_null v)
    simpa [errorOf] using hcomplete
  | step t =>
    obtain rfl : drives = true := hdrives (by simp)
    obtain ⟨ht, hrun⟩ := hwaits t (.inl rfl)
    obtain rfl : (r.ticket t).run = i := hrun
    have hcomplete (e : Option Value) (he : e ≠ some .null) := complete true hpop ht he
    have hticket : ({ r with stack := rest } : Runner).ticket t = r.ticket t := rfl
    by_cases hgiven : (r.ticket t).given
    · simpa [hticket, hgiven] using hpop.drive
    · by_cases hv : v.isFault
      · simpa [hticket, hgiven, hv, errorOf] using hcomplete (some v) (by rintro ⟨⟩; cases hv)
      · by_cases hawait : awaitable
        · have hlt : (r.ticket t).run < r.runs.size := h.run_lt _ hmem
          have hpush := hpop.toTables.push ⟨(r.ticket t).run, true, .settling t⟩ hlt (by simp)
            (by simpa using ⟨ht, rfl⟩) (by simp) rfl
          simp only [hticket, hgiven, hv, hawait, demands, Bool.false_eq_true, if_false, if_true, Bool.not_false,
            Bool.and_self, Bool.or_true, List.append_nil]
          refine ⟨hpush, fun j hj => (hpop.phase j hj).congr rfl ?_ rfl rfl fun _ _ => rfl, h.lawful⟩
          rw [seeks_push]
          simp
        · simpa [hticket, hgiven, hv, hawait, errorOf] using hcomplete none (by simp)

/-- An error that leaves an activation ends the loop that it drives. -/
theorem abandon {a : Activation} (h : r.Consistent base τ (hold a.drives a.run)) (e : Value) :
    (r.abandon a e).1.Consistent base τ none := by
  unfold Runner.abandon
  by_cases hdrives : a.drives
  · rw [hdrives, hold_true] at h
    simpa [hdrives] using h.release
  · simpa [hdrives] using h

/-- A step or its awaitable has failed with an ordinary error, which completes it. -/
theorem failing {wait : Wait} {rest : List Activation} {m : Move} {e : Value}
    (h : r.Consistent base τ none) (hs : r.stack = ⟨(r.ticket t).run, true, wait⟩ :: rest) (hw : wait ≠ .seeking)
    (ht : t < r.tickets.size) (he : e ≠ .null) (hsignals : r.signals m = [.completed t (some e)])
    (hreact : r.react m = ({ r with stack := rest } : Runner).failStep t e) :
    (r.react m).1.Consistent base (τ ++ r.deeds m) none := by
  have hsome : some e ≠ some .null := fun heq => he (Option.some.inj heq)
  have hcomplete := complete true (h.pop hs hw) ht hsome
  have hfail (x : Value) : (({ r with stack := rest } : Runner).failStep t e).2.2 ≠ .fail x :=
    complete_ne_fail _ t true (some e) x
  rw [deeds, hsignals, hreact, lets_of_ne_fail m hfail]
  exact hcomplete

/-- What an activation waits for has raised. -/
theorem raised {a : Activation} {rest : List Activation} (h : r.Consistent base τ none)
    (hs : r.stack = a :: rest) (ha : a.wait ≠ .seeking) {e : Value} (he : e ≠ .null) (ordinary : Bool) :
    (r.react (.raised e ordinary)).1.Consistent base (τ ++ r.deeds (.raised e ordinary)) none := by
  have hmem : a ∈ r.stack := by rw [hs]; exact List.mem_cons_self
  have hpop := h.pop hs ha
  obtain ⟨i, drives, wait⟩ := a
  have hdrives := h.drives _ hmem
  have hwaits := h.waits _ hmem
  cases wait with
  | seeking => exact absurd rfl ha
  | failed =>
    have hpass := hpop.pass (x := .refused i e) (fun _ => rfl) (fun _ => rfl) (fun _ => rfl) (by simp)
    simpa [deeds, signals, lets, react, hs, Runner.raised, demands, Runner.abandon] using hpass.abandon e
  | finished =>
    have hpass := hpop.pass (x := .refused i e) (fun _ => rfl) (fun _ => rfl) (fun _ => rfl) (by simp)
    simpa [deeds, signals, lets, react, hs, Runner.raised, demands, Runner.abandon] using hpass.abandon e
  | settling t =>
    obtain rfl : drives = true := hdrives (by simp)
    obtain ⟨ht, hrun⟩ := hwaits t (.inr rfl)
    obtain rfl : (r.ticket t).run = i := hrun
    cases ordinary with
    | true =>
      exact h.failing hs ha ht he (by simp [signals, hs]) (by simp [react, hs, Runner.raised])
    | false =>
      have hpass := hpop.pass (x := .escaped (r.ticket t).run t e) (fun _ => rfl) (fun _ => rfl) (fun _ => rfl)
        (by simp)
      simpa [deeds, signals, lets, react, hs, Runner.raised, demands, Runner.abandon] using hpass.abandon e
  | step t =>
    obtain rfl : drives = true := hdrives (by simp)
    obtain ⟨ht, hrun⟩ := hwaits t (.inl rfl)
    obtain rfl : (r.ticket t).run = i := hrun
    have hticket : ({ r with stack := rest } : Runner).ticket t = r.ticket t := rfl
    cases ordinary with
    | true =>
      by_cases hcalled : (r.ticket t).called
      · have hpass := (hpop.again ht hcalled (some e)).pass (x := .escaped (r.ticket t).run t e) (fun _ => rfl)
          (fun _ => rfl) (fun _ => rfl) (by simp)
        simpa [deeds, signals, lets, react, hs, Runner.raised, demands, Runner.abandon, hticket, hcalled]
          using hpass.abandon e
      · exact h.failing hs ha ht he (by simp [signals, hs])
          (by simp [react, hs, Runner.raised, hticket, hcalled])
    | false =>
      have hpass := hpop.pass (x := .escaped (r.ticket t).run t e) (fun _ => rfl) (fun _ => rfl) (fun _ => rfl)
        (by simp)
      simpa [deeds, signals, lets, react, hs, Runner.raised, demands, Runner.abandon] using hpass.abandon e

/-- The awaitable of a step is watched from now on. -/
theorem watching {a : Activation} {rest : List Activation} (h : r.Consistent base τ none)
    (hs : r.stack = a :: rest) (ha : a.wait = .settling t) (future : Nat) :
    (r.react (.watching future)).1.Consistent base (τ ++ r.deeds (.watching future)) none := by
  have hmem : a ∈ r.stack := by rw [hs]; exact List.mem_cons_self
  have hdrives : a.drives = true := h.drives a hmem (by rw [ha]; exact Wait.noConfusion)
  have hpop := h.pop hs (by rw [ha]; exact Wait.noConfusion)
  rw [hdrives, hold_true] at hpop
  have hdrive := (hpop.equip (r.updateWare (r.run a.run).ware fun w =>
    { w with pending := if w.pending.contains future then w.pending else w.pending ++ [future] }).wares
    r.steps).drive
  simpa [deeds, signals, lets, react, hs, updateWare, Runner.run] using hdrive

/-- The future of a step has ended. -/
theorem settled (h : r.Consistent base τ none) (ht : t < r.tickets.size) (future : Nat) {e : Option Value}
    (he : e ≠ some .null) :
    (r.react (.settled t future e)).1.Consistent base (τ ++ r.deeds (.settled t future e)) none := by
  have hequip := h.equip (r.updateWare (r.run (r.ticket t).run).ware fun w =>
    { w with pending := w.pending.erase future }).wares r.steps
  have hcomplete := complete false hequip ht he
  cases e <;> simpa [deeds, signals, lets, react, updateWare] using hcomplete

/-- Every move that can come keeps the invariant. -/
theorem react (h : r.Consistent base τ none) {m : Move} (hm : r.Admits (τ.registry base) m) :
    (r.react m).1.Consistent base (τ ++ r.deeds m) none := by
  cases hm with
  | start w inputs done => exact h.start w inputs done
  | found hs ha =>
    have hproceed := (h.turn hs ha).proceed
    simp only [deeds, signals, lets, Runner.react, hs, List.nil_append]
    exact hproceed
  | next ht he => simpa [deeds, signals, lets, Runner.react] using h.complete false ht he
  | settled future ht he => exact h.settled ht future he
  | returned v awaitable hs ha => exact h.returned hs ha v awaitable
  | raised ordinary hs ha he => exact h.raised hs ha he ordinary
  | watching future hs ha => exact h.watching hs ha future

end Consistent

/-- Whatever comes about is consistent with what happened. -/
theorem consistent_of_reached (h : Reached base r τ) : r.Consistent base τ none := by
  induction h with
  | begin hruns htickets hstack => exact .begin hruns htickets hstack
  | register ware step _ ih => exact ih.pass (fun _ => rfl) (fun _ => rfl) (fun _ => rfl) (by simp)
  | equip wares steps _ ih => exact ih.equip wares steps
  | move _ hm ih => exact ih.react hm

end Treeworks.Runner
