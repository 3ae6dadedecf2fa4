import Treeworks.Proofs.Run.Invariant

/-! What each operation of a runner does to the invariant. -/
namespace Treeworks.Runner
variable {r r' : Runner} {base : Nat → List Nat} {τ υ : History} {held : Option Nat} {i : Nat}

/-- A phase only depends on the views of the run. -/
theorem Phase.congr (h : r.Phase τ i) (hready : (r'.run i).ready = (r.run i).ready)
    (hseeks : r'.Seeks i ↔ r.Seeks i) (hinv : υ.invocations i = τ.invocations i)
    (hrep : υ.reports i = τ.reports i)
    (hfirst : ∀ t ∈ τ.tickets i, υ.firstCompletion t = τ.firstCompletion t) : r'.Phase υ i := by
  have hmem : ∀ x ∈ τ.invocations i, x.1 ∈ τ.tickets i := fun x hx => List.mem_map_of_mem hx
  have htick : υ.tickets i = τ.tickets i := by rw [History.tickets, hinv, History.tickets]
  cases h with
  | pending earlier t k unreported idle settled last cleared open_ =>
    refine .pending earlier t k (by rw [hrep, unreported]) (by rw [hready, idle]) (by rwa [hseeks])
      (by rw [hinv, last]) (fun x hx => ?_) ?_
    · rw [hfirst x.1 (hmem x (by rw [last]; exact List.mem_append_left _ hx)), cleared x hx]
    · rw [hfirst t (hmem (t, k) (by rw [last]; simp)), open_]
  | going unreported cleared token =>
    refine .going (by rw [hrep, unreported]) (fun t ht => ?_) (by rw [hready, hseeks, token])
    rw [htick] at ht
    rw [hfirst t ht, cleared t ht]
  | ended report reported idle settled completed =>
    refine .ended report (by rw [hrep, reported]) (by rw [hready, idle]) (by rwa [hseeks]) (fun t ht => ?_)
    rw [htick] at ht
    rw [hfirst t ht]
    exact completed t ht

theorem Seeks.of_cons {a : Activation} {rest : List Activation} (h : r.stack = a :: rest)
    (ha : a.wait ≠ .seeking) : ({ r with stack := rest } : Runner).Seeks i ↔ r.Seeks i := by
  simp only [Seeks, h, List.mem_cons]
  constructor
  · rintro ⟨b, hb, hi⟩
    exact ⟨b, .inr hb, hi⟩
  · rintro ⟨b, rfl | hb, hi, hw⟩
    · exact absurd hw ha
    · exact ⟨b, hb, hi, hw⟩

theorem seeks_push {a : Activation} : (r.push a).Seeks i ↔ (a.run = i ∧ a.wait = .seeking) ∨ r.Seeks i := by
  simp [Seeks]

theorem drivers_push (a : Activation) :
    (r.push a).drivers i = r.drivers i + if a.drives ∧ a.run = i then 1 else 0 := by
  simp [drivers, List.countP_cons]

/-! ### The tables -/

namespace Tables

/-- A deed that no view of a run or a ticket shows leaves the tables as they are. -/
theorem pass (h : r.Tables base τ held) {x : Deed} (hinv : ∀ i, History.invocation? i x = none)
    (hcomp : ∀ t, History.completion? t x = none) (hrep : ∀ i, History.report? i x = none)
    (hstart : ∀ i w inputs done, .started i w inputs done ≠ x) : r.Tables base (τ ++ [x]) held := by
  have hinvs (j : Nat) : (τ ++ [x]).invocations j = τ.invocations j := by
    rw [History.invocations_append, History.invocations_singleton, hinv, Option.toList_none, List.append_nil]
  have hreps (j : Nat) : (τ ++ [x]).reports j = τ.reports j := by
    rw [History.reports_append, History.reports_singleton, hrep, Option.toList_none, List.append_nil]
  have hfirst (t : Nat) : (τ ++ [x]).firstCompletion t = τ.firstCompletion t := by
    rw [History.firstCompletion_append, History.firstCompletion_singleton, hcomp, Option.or_none]
  exact { h with
    told := by
      intro a ha hw
      rw [hreps]
      exact h.told a ha hw
    ticket := by
      intro t ht
      rw [hfirst, hinvs]
      exact h.ticket t ht
    fresh := by
      intro t ht
      rw [hfirst]
      exact h.fresh t ht
    invocation := by
      intro j
      rw [hinvs]
      exact h.invocation j
    nodup := by
      intro j
      rw [History.tickets, hinvs]
      exact h.nodup j
    unreported := by
      intro j
      rw [hreps]
      exact h.unreported j
    started := by
      intro j v inputs done
      rw [List.mem_append, List.mem_singleton, or_iff_left (hstart j v inputs done)]
      exact h.started j v inputs done
    steps := by
      intro j hj
      obtain ⟨hle, heq⟩ := h.steps j hj
      rw [History.registry_append, History.invokedSteps, hinvs, List.take_append_of_le_length hle]
      exact ⟨by rw [List.length_append]; omega, heq⟩ }

/-- A report shows in the view of its own run alone. -/
theorem report (h : r.Tables base τ held) (hi : i < r.runs.size) (d : Value) (args : List Value) :
    r.Tables base (τ ++ [.reported i d args]) held where
  run_lt := h.run_lt
  drives := h.drives
  waits := h.waits
  told := by
    intro a ha hw
    rw [History.reports_append]
    exact List.append_ne_nil_of_left_ne_nil (h.told a ha hw) _
  drivers_eq := h.drivers_eq
  held_lt := h.held_lt
  ticket := by
    intro t ht
    obtain ⟨hlt, hmem, hcalled⟩ := h.ticket t ht
    refine ⟨hlt, by simpa using hmem, ?_⟩
    rw [hcalled, History.firstCompletion_append]
    simp
  fresh := by
    intro t ht
    rw [History.firstCompletion_append, h.fresh t ht]
    simp
  invocation := by
    intro j x hx
    exact h.invocation j x (by simpa using hx)
  nodup := by
    intro j
    simpa using h.nodup j
  unreported := by
    intro j hj
    have hij : i ≠ j := by omega
    simpa [hij] using h.unreported j hj
  started := by
    intro j v inputs done
    simpa using h.started j v inputs done
  steps := by
    intro j hj
    simpa [History.registry] using h.steps j hj

/-- A signal uses its ticket up. -/
theorem signal (h : r.Tables base τ held) {t : Nat} (ht : t < r.tickets.size) (e : Option Value) :
    (r.mark t).Tables base (τ ++ [.completed t e]) held where
  run_lt := h.run_lt
  drives := h.drives
  waits := by simpa using h.waits
  told := by
    intro a ha hw
    simpa using h.told a ha hw
  drivers_eq := h.drivers_eq
  held_lt := h.held_lt
  ticket := by
    intro u hu
    rw [size_tickets_mark] at hu
    obtain ⟨hlt, hmem, hcalled⟩ := h.ticket u hu
    refine ⟨by simpa using hlt, by simpa using hmem, ?_⟩
    rw [History.firstCompletion_append]
    by_cases htu : t = u
    · subst htu
      rw [ticket_mark_self r t ht]
      simp
    · rw [ticket_mark_of_ne r u t htu, hcalled]
      simp [htu]
  fresh := by
    intro u hu
    rw [size_tickets_mark] at hu
    have htu : t ≠ u := by omega
    rw [History.firstCompletion_append, h.fresh u hu]
    simp [htu]
  invocation := by
    intro j x hx
    simpa using h.invocation j x (by simpa using hx)
  nodup := by
    intro j
    simpa using h.nodup j
  unreported := by
    intro j hj
    simpa using h.unreported j hj
  started := by
    intro j v inputs done
    simpa using h.started j v inputs done
  steps := by
    intro j hj
    simpa [History.registry] using h.steps j hj

/-- A change of the flags of a run. -/
theorem update {held' : Option Nat} (h : r.Tables base τ held) (hi : i < r.runs.size) (f : Run → Run)
    (hf : ∀ run, f run = { run with ready := (f run).ready, driving := (f run).driving })
    (hheld : ∀ j, j ≠ i → (held' = some j ↔ held = some j))
    (hdrivers : r.drivers i + (if held' = some i then 1 else 0) = if (f (r.run i)).driving then 1 else 0) :
    (r.updateRun i f).Tables base τ held' := by
  have hkept (j : Nat) : ((r.updateRun i f).run j).ware = (r.run j).ware ∧
      ((r.updateRun i f).run j).inputs = (r.run j).inputs ∧ ((r.updateRun i f).run j).done = (r.run j).done ∧
      ((r.updateRun i f).run j).index = (r.run j).index := by
    by_cases hj : i = j
    · subst hj
      rw [run_updateRun_self r i f hi, hf]
      exact ⟨rfl, rfl, rfl, rfl⟩
    · rw [run_updateRun_of_ne r i j f hj]
      exact ⟨rfl, rfl, rfl, rfl⟩
  exact {
    run_lt := by simpa using h.run_lt
    drives := h.drives
    waits := h.waits
    told := h.told
    drivers_eq := by
      intro j
      by_cases hj : i = j
      · subst hj
        rw [run_updateRun_self r i f hi]
        exact hdrivers
      · rw [run_updateRun_of_ne r i j f hj]
        have := h.drivers_eq j
        simp only [hheld j (Ne.symm hj)]
        exact this
    held_lt := by
      intro j hj
      rw [size_runs_updateRun]
      by_cases hji : j = i
      · rw [hji]; exact hi
      · exact h.held_lt j ((hheld j hji).mp hj)
    ticket := by simpa using h.ticket
    fresh := h.fresh
    invocation := h.invocation
    nodup := h.nodup
    unreported := by simpa using h.unreported
    started := by
      intro j w inputs done
      obtain ⟨hw, hin, hd, -⟩ := hkept j
      rw [hw, hin, hd, size_runs_updateRun]
      exact h.started j w inputs done
    steps := by
      intro j hj
      obtain ⟨hw, -, -, hx⟩ := hkept j
      rw [hw, hx]
      exact h.steps j (by simpa using hj) }

/-- An activation is put on the stack; one that drives its run takes the driver that was held. -/
theorem push (h : r.Tables base τ held) (a : Activation) (hlt : a.run < r.runs.size)
    (hdrives : a.wait ≠ .failed → a.drives = true)
    (hwait : ∀ t, a.wait = .step t ∨ a.wait = .settling t → t < r.tickets.size ∧ (r.ticket t).run = a.run)
    (htold : a.wait = .failed ∨ a.wait = .finished → τ.reports a.run ≠ [])
    (hheld : held = if a.drives then some a.run else none) : (r.push a).Tables base τ none where
  run_lt := by
    intro b hb
    rcases List.mem_cons.mp hb with rfl | hb
    · exact hlt
    · exact h.run_lt b hb
  drives := by
    intro b hb
    rcases List.mem_cons.mp hb with rfl | hb
    · exact hdrives
    · exact h.drives b hb
  waits := by
    intro b hb
    rcases List.mem_cons.mp hb with rfl | hb
    · exact hwait
    · exact h.waits b hb
  told := by
    intro b hb
    rcases List.mem_cons.mp hb with rfl | hb
    · exact htold
    · exact h.told b hb
  drivers_eq := by
    intro j
    have hj := h.drivers_eq j
    rw [run_push, drivers_push, ← hj, hheld]
    by_cases hd : a.drives <;> simp [hd]
  held_lt := by simp
  ticket := h.ticket
  fresh := h.fresh
  invocation := h.invocation
  nodup := h.nodup
  unreported := h.unreported
  started := h.started
  steps := h.steps

/-- The topmost activation is taken off the stack; the driver of its run is held from then on. -/
theorem pop {a : Activation} {rest : List Activation} (h : r.Tables base τ none) (hs : r.stack = a :: rest) :
    ({ r with stack := rest } : Runner).Tables base τ (if a.drives then some a.run else none) where
  run_lt := fun b hb => h.run_lt b (by rw [hs]; exact List.mem_cons_of_mem a hb)
  drives := fun b hb => h.drives b (by rw [hs]; exact List.mem_cons_of_mem a hb)
  waits := fun b hb => h.waits b (by rw [hs]; exact List.mem_cons_of_mem a hb)
  told := fun b hb => h.told b (by rw [hs]; exact List.mem_cons_of_mem a hb)
  drivers_eq := by
    intro j
    have hj := h.drivers_eq j
    have hcount : r.drivers j = ({ r with stack := rest } : Runner).drivers j +
        if a.drives ∧ a.run = j then 1 else 0 := by
      simp [drivers, hs, List.countP_cons]
    change _ = if (r.run j).driving then 1 else 0
    rw [← hj, hcount]
    by_cases hd : a.drives <;> simp [hd]
  held_lt := by
    intro j hj
    by_cases hd : a.drives = true
    · rw [if_pos hd, Option.some.injEq] at hj
      rw [← hj]
      exact h.run_lt a (by rw [hs]; exact List.mem_cons_self)
    · rw [if_neg hd] at hj
      cases hj
  ticket := h.ticket
  fresh := h.fresh
  invocation := h.invocation
  nodup := h.nodup
  unreported := h.unreported
  started := h.started
  steps := h.steps

/-- A run begins. -/
theorem start (h : r.Tables base τ none) (w : Nat) (inputs : List Value) (done : Value) :
    ({ r with runs := r.runs.push ⟨w, inputs, done, 0, false, false⟩ } : Runner).Tables base
      (τ ++ [.started r.runs.size w inputs done]) none := by
  -- A run that has not begun has invoked nothing.
  have hnone : τ.invocations r.runs.size = [] := by
    rw [List.eq_nil_iff_forall_not_mem]
    intro x hx
    obtain ⟨hlt, hrun⟩ := h.invocation _ x hx
    have := (h.ticket x.1 hlt).1
    omega
  have hout (j : Nat) (hj : r.runs.size ≤ j) : (r.run j).driving = false := by
    rw [Runner.run, Array.getD_eq_getD_getElem?, Array.getElem?_eq_none hj]
    rfl
  generalize hr' : ({ r with runs := r.runs.push ⟨w, inputs, done, 0, false, false⟩ } : Runner) = r'
  have hstack : r'.stack = r.stack := by rw [← hr']
  have htickets : r'.tickets = r.tickets := by rw [← hr']
  have hticket (t : Nat) : r'.ticket t = r.ticket t := by rw [← hr']; rfl
  have hsize : r'.runs.size = r.runs.size + 1 := by rw [← hr']; simp
  have hold (j : Nat) (hj : j ≠ r.runs.size) : r'.run j = r.run j := by
    rw [← hr']
    simp [Runner.run, Array.getElem?_push, hj]
  have hnew : r'.run r.runs.size = ⟨w, inputs, done, 0, false, false⟩ := by
    rw [← hr']
    simp [Runner.run]
  exact {
    run_lt := by
      intro a ha
      rw [hstack] at ha
      rw [hsize]
      exact Nat.lt_succ_of_lt (h.run_lt a ha)
    drives := by rw [hstack]; exact h.drives
    waits := by
      intro a ha t hw
      rw [hstack] at ha
      rw [htickets, hticket]
      exact h.waits a ha t hw
    told := by
      intro a ha hw
      rw [hstack] at ha
      simpa using h.told a ha hw
    drivers_eq := by
      intro j
      have hj := h.drivers_eq j
      rw [drivers, hstack, ← drivers, hj]
      by_cases hjr : j = r.runs.size
      · rw [hjr, hnew, hout _ (Nat.le_refl _)]
      · rw [hold j hjr]
    held_lt := by simp
    ticket := by
      intro t ht
      rw [htickets] at ht
      obtain ⟨hlt, hmem, hcalled⟩ := h.ticket t ht
      rw [hticket, hsize, History.firstCompletion_append]
      exact ⟨Nat.lt_succ_of_lt hlt, by simpa using hmem, by simpa using hcalled⟩
    fresh := by
      intro t ht
      rw [htickets] at ht
      rw [History.firstCompletion_append, h.fresh t ht]
      simp
    invocation := by
      intro j x hx
      rw [htickets, hticket]
      exact h.invocation j x (by simpa using hx)
    nodup := by
      intro j
      simpa using h.nodup j
    unreported := by
      intro j hj
      rw [hsize] at hj
      simpa using h.unreported j (by omega)
    started := by
      intro j v ins d
      rw [List.mem_append, List.mem_singleton, h.started j v ins d, hsize]
      by_cases hjr : j = r.runs.size
      · rw [hjr, hnew]
        simp only [Nat.lt_irrefl, false_and, false_or, Deed.started.injEq, true_and, Nat.lt_succ_self]
        tauto
      · rw [hold j hjr]
        have hne : (Deed.started j v ins d) ≠ .started r.runs.size w inputs done := by simp [hjr]
        have hlt : j < r.runs.size + 1 ↔ j < r.runs.size := by omega
        rw [or_iff_left hne, hlt]
    steps := by
      intro j hj
      rw [hsize] at hj
      by_cases hjr : j = r.runs.size
      · rw [hjr, hnew]
        simp [History.invokedSteps, hnone]
      · rw [hold j hjr]
        simpa [History.registry] using h.steps j (by omega) }

/-- The step at the index of a run is invoked with a new ticket. -/
theorem invoke (h : r.Tables base τ held) (hi : i < r.runs.size) {k : Nat}
    (hk : (τ.registry base (r.run i).ware)[(r.run i).index]? = some k) (given : Bool) (args : List Value) :
    ({ r.updateRun i fun run => { run with index := run.index + 1 } with
        tickets := r.tickets.push ⟨i, k, given, false⟩ } : Runner).Tables base
      (τ ++ [.invoked i r.tickets.size k args]) held := by
  generalize hr' : ({ r.updateRun i fun run => { run with index := run.index + 1 } with
    tickets := r.tickets.push ⟨i, k, given, false⟩ } : Runner) = r'
  have hstack : r'.stack = r.stack := by rw [← hr']; rfl
  have hruns : r'.runs.size = r.runs.size := by rw [← hr']; simp
  have hsize : r'.tickets.size = r.tickets.size + 1 := by rw [← hr']; simp
  have hself : r'.run i = { r.run i with index := (r.run i).index + 1 } := by
    rw [← hr']
    exact run_updateRun_self r i _ hi
  have hother (j : Nat) (hj : i ≠ j) : r'.run j = r.run j := by
    rw [← hr']
    exact run_updateRun_of_ne r i j _ hj
  have hold (t : Nat) (ht : t < r.tickets.size) : r'.ticket t = r.ticket t := by
    rw [← hr']
    simp [Runner.ticket, Array.getElem?_push, Nat.ne_of_lt ht]
  have hnew : r'.ticket r.tickets.size = ⟨i, k, given, false⟩ := by
    rw [← hr']
    simp [Runner.ticket]
  -- All that a run was begun with stays; no more than its index moves on.
  have hkept (j : Nat) : (r'.run j).driving = (r.run j).driving ∧ (r'.run j).ware = (r.run j).ware ∧
      (r'.run j).inputs = (r.run j).inputs ∧ (r'.run j).done = (r.run j).done := by
    by_cases hj : i = j
    · subst hj
      rw [hself]
      exact ⟨rfl, rfl, rfl, rfl⟩
    · rw [hother j hj]
      exact ⟨rfl, rfl, rfl, rfl⟩
  exact {
    run_lt := by rw [hstack, hruns]; exact h.run_lt
    drives := by rw [hstack]; exact h.drives
    waits := by
      intro a ha t hw
      rw [hstack] at ha
      obtain ⟨hlt, hrun⟩ := h.waits a ha t hw
      rw [hold t hlt, hsize]
      exact ⟨Nat.lt_succ_of_lt hlt, hrun⟩
    told := by
      intro a ha hw
      rw [hstack] at ha
      simpa using h.told a ha hw
    drivers_eq := by
      intro j
      rw [(hkept j).1, drivers, hstack]
      exact h.drivers_eq j
    held_lt := by rw [hruns]; exact h.held_lt
    ticket := by
      intro t ht
      rw [hsize] at ht
      rw [hruns, History.firstCompletion_append]
      by_cases hlt : t < r.tickets.size
      · obtain ⟨hrun, hmem, hcalled⟩ := h.ticket t hlt
        rw [hold t hlt]
        exact ⟨hrun, by simpa using Or.inl hmem, by simpa using hcalled⟩
      · obtain rfl : t = r.tickets.size := by omega
        rw [hnew, h.fresh _ (Nat.le_refl _)]
        exact ⟨hi, by simp, by simp⟩
    fresh := by
      intro t ht
      rw [hsize] at ht
      rw [History.firstCompletion_append, h.fresh t (by omega)]
      simp
    invocation := by
      intro j x hx
      rw [History.invocations_append, List.mem_append] at hx
      rcases hx with hx | hx
      · obtain ⟨hlt, hrun⟩ := h.invocation j x hx
        rw [hold _ hlt, hsize]
        exact ⟨Nat.lt_succ_of_lt hlt, hrun⟩
      · by_cases hij : i = j
        · obtain rfl : x = (r.tickets.size, k) := by simpa [hij] using hx
          rw [hnew, hsize]
          exact ⟨Nat.lt_succ_self _, hij⟩
        · simp [hij] at hx
    nodup := by
      intro j
      rw [History.tickets_append, History.tickets_singleton]
      by_cases hij : i = j
      · have hfresh : r.tickets.size ∉ τ.tickets j := by
          intro hmem
          obtain ⟨x, hx, hxt⟩ := List.mem_map.mp hmem
          have := (h.invocation j x hx).1
          omega
        simpa [hij, List.nodup_append, h.nodup j] using fun a ha => ne_of_mem_of_not_mem ha hfresh
      · simpa [hij] using h.nodup j
    unreported := by
      intro j hj
      rw [hruns] at hj
      simpa using h.unreported j hj
    started := by
      intro j v ins d
      obtain ⟨-, hw, hin, hd⟩ := hkept j
      rw [hw, hin, hd, hruns]
      simpa using h.started j v ins d
    steps := by
      intro j hj
      rw [hruns] at hj
      obtain ⟨hle, heq⟩ := h.steps j hj
      have hreg : History.registry base (τ ++ [.invoked i r.tickets.size k args]) (r'.run j).ware =
          τ.registry base (r.run j).ware := by
        rw [(hkept j).2.1]
        simp [History.registry]
      rw [hreg, History.invokedSteps_append, heq]
      by_cases hij : i = j
      · subst hij
        obtain ⟨hlt, hget⟩ := List.getElem?_eq_some_iff.mp hk
        rw [hself]
        refine ⟨hlt, ?_⟩
        rw [List.take_succ_eq_append_getElem hlt, hget]
        simp
      · rw [hother j hij]
        exact ⟨hle, by simp [hij]⟩ }

end Tables
end Treeworks.Runner
