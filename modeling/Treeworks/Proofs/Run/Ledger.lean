import Mathlib.Data.List.Basic
import Treeworks.Proofs.Run.History

/-! How the views of a history grow, and what the operations of a runner do to its tables. -/
namespace Treeworks

namespace History
variable (τ υ : History) (i t w : Nat)

@[simp] theorem invocations_append : (τ ++ υ).invocations i = τ.invocations i ++ υ.invocations i :=
  List.filterMap_append

@[simp] theorem invokedSteps_append : (τ ++ υ).invokedSteps i = τ.invokedSteps i ++ υ.invokedSteps i := by
  simp [invokedSteps]

@[simp] theorem tickets_append : (τ ++ υ).tickets i = τ.tickets i ++ υ.tickets i := by simp [tickets]

@[simp] theorem reports_append : (τ ++ υ).reports i = τ.reports i ++ υ.reports i := List.filterMap_append

@[simp] theorem registered_append : (τ ++ υ).registered w = τ.registered w ++ υ.registered w :=
  List.filterMap_append

theorem registry_append (base : Nat → List Nat) :
    (τ ++ υ).registry base w = τ.registry base w ++ υ.registered w := by
  rw [registry, registered_append, ← List.append_assoc, registry]

@[simp] theorem registered_singleton (x : Deed) : registered [x] w = (registration? w x).toList := by
  rw [registered, List.filterMap_cons, List.filterMap_nil]
  cases registration? w x <;> rfl

@[simp] theorem invocations_singleton (x : Deed) : invocations [x] i = (invocation? i x).toList := by
  rw [invocations, List.filterMap_cons, List.filterMap_nil]
  cases invocation? i x <;> rfl

@[simp] theorem reports_singleton (x : Deed) : reports [x] i = (report? i x).toList := by
  rw [reports, List.filterMap_cons, List.filterMap_nil]
  cases report? i x <;> rfl

@[simp] theorem tickets_singleton (x : Deed) : tickets [x] i = (invocation? i x).toList.map (·.1) := by
  simp [tickets]

@[simp] theorem invokedSteps_singleton (x : Deed) :
    invokedSteps [x] i = (invocation? i x).toList.map (·.2) := by
  simp [invokedSteps]

@[simp] theorem firstCompletion_singleton (x : Deed) : firstCompletion [x] t = completion? t x := by
  rw [firstCompletion, List.findSome?_cons, List.findSome?_nil]
  cases completion? t x <;> rfl

theorem firstCompletion_append :
    (τ ++ υ).firstCompletion t = (τ.firstCompletion t).or (υ.firstCompletion t) :=
  List.findSome?_append

/-- The first completion stays the first one. -/
theorem firstCompletion_append_of_some {e : Option Value} (h : τ.firstCompletion t = some e) :
    (τ ++ υ).firstCompletion t = some e := by
  rw [firstCompletion_append, h, Option.some_or]

theorem Cleared.append {τ : History} {i : Nat} (h : τ.Cleared i) (υ : History) (hυ : υ.invocations i = []) :
    (τ ++ υ).Cleared i := by
  intro u hu
  rw [tickets_append, tickets, tickets, hυ, List.map_nil, List.append_nil] at hu
  exact firstCompletion_append_of_some τ υ u (h u hu)

end History

namespace Runner
variable (r : Runner) (i j t : Nat)

@[simp] theorem run_updateRun_of_ne (f : Run → Run) (h : i ≠ j) : (r.updateRun i f).run j = r.run j := by
  simp [Runner.run, updateRun, Array.getElem?_modify, h]

@[simp] theorem run_updateRun_self (f : Run → Run) (h : i < r.runs.size) :
    (r.updateRun i f).run i = f (r.run i) := by
  simp [Runner.run, updateRun, Array.getElem_modify, h]

@[simp] theorem size_runs_updateRun (f : Run → Run) : (r.updateRun i f).runs.size = r.runs.size := by
  simp [updateRun]

@[simp] theorem stack_updateRun (f : Run → Run) : (r.updateRun i f).stack = r.stack := rfl

@[simp] theorem tickets_updateRun (f : Run → Run) : (r.updateRun i f).tickets = r.tickets := rfl

@[simp] theorem ticket_updateRun (f : Run → Run) : (r.updateRun i f).ticket t = r.ticket t := rfl

@[simp] theorem run_push (a : Activation) : (r.push a).run i = r.run i := rfl

@[simp] theorem runs_push (a : Activation) : (r.push a).runs = r.runs := rfl

@[simp] theorem stack_push (a : Activation) : (r.push a).stack = a :: r.stack := rfl

@[simp] theorem tickets_push (a : Activation) : (r.push a).tickets = r.tickets := rfl

@[simp] theorem ticket_push (a : Activation) : (r.push a).ticket t = r.ticket t := rfl

/-- Marks a ticket as used. -/
def mark (r : Runner) (t : Nat) : Runner :=
  { r with tickets := r.tickets.modify t fun ticket => { ticket with called := true } }

@[simp] theorem run_mark : (r.mark t).run i = r.run i := rfl

@[simp] theorem runs_mark : (r.mark t).runs = r.runs := rfl

@[simp] theorem stack_mark : (r.mark t).stack = r.stack := rfl

@[simp] theorem size_tickets_mark : (r.mark t).tickets.size = r.tickets.size := by simp [mark]

theorem ticket_mark_self (h : t < r.tickets.size) : (r.mark t).ticket t = { r.ticket t with called := true } := by
  simp [Runner.ticket, mark, Array.getElem_modify, h]

theorem ticket_mark_of_ne (h : t ≠ i) : (r.mark t).ticket i = r.ticket i := by
  simp [Runner.ticket, mark, Array.getElem?_modify, h]

@[simp] theorem ticket_mark_run : ((r.mark t).ticket i).run = (r.ticket i).run := by
  by_cases h : t = i
  · subst h
    by_cases ht : t < r.tickets.size
    · rw [ticket_mark_self r t ht]
    · simp [Runner.ticket, mark, ht]
  · rw [ticket_mark_of_ne r i t h]

@[simp] theorem ticket_mark_step : ((r.mark t).ticket i).step = (r.ticket i).step := by
  by_cases h : t = i
  · subst h
    by_cases ht : t < r.tickets.size
    · rw [ticket_mark_self r t ht]
    · simp [Runner.ticket, mark, ht]
  · rw [ticket_mark_of_ne r i t h]

/-- A ticket that was used stays as it is. -/
theorem mark_of_called (h : (r.ticket t).called = true) : r.mark t = r := by
  have ht : r.tickets.modify t (fun ticket => { ticket with called := true }) = r.tickets := by
    apply Array.ext
    · simp
    · intro j hj hj'
      rw [Array.getElem_modify]
      by_cases hjt : t = j
      · subst hjt
        have hr : r.ticket t = r.tickets[t] := by simp [Runner.ticket, hj']
        rw [if_pos rfl, ← hr, ← h]
      · rw [if_neg hjt]
  rw [mark, ht]

theorem run_addRun_of_ne (x : Run) (h : i ≠ r.runs.size) : ({ r with runs := r.runs.push x } : Runner).run i = r.run i := by
  simp [Runner.run, Array.getElem?_push, h]

theorem run_addRun_self (x : Run) : ({ r with runs := r.runs.push x } : Runner).run r.runs.size = x := by
  simp [Runner.run]

theorem ticket_addTicket_of_ne (x : Ticket) (h : t ≠ r.tickets.size) :
    ({ r with tickets := r.tickets.push x } : Runner).ticket t = r.ticket t := by
  simp [Runner.ticket, Array.getElem?_push, h]

theorem ticket_addTicket_self (x : Ticket) :
    ({ r with tickets := r.tickets.push x } : Runner).ticket r.tickets.size = x := by
  simp [Runner.ticket]

@[simp] theorem runs_updateWare (f : Ware → Ware) : (r.updateWare i f).runs = r.runs := rfl

@[simp] theorem run_updateWare (f : Ware → Ware) : (r.updateWare i f).run j = r.run j := rfl

@[simp] theorem tickets_updateWare (f : Ware → Ware) : (r.updateWare i f).tickets = r.tickets := rfl

@[simp] theorem ticket_updateWare (f : Ware → Ware) : (r.updateWare i f).ticket t = r.ticket t := rfl

@[simp] theorem stack_updateWare (f : Ware → Ware) : (r.updateWare i f).stack = r.stack := rfl

/-- Changing the futures that a ware waits for changes neither its list of steps nor its context. -/
theorem ware_updatePending (w : Nat) (f : List Nat → List Nat) (v : Nat) :
    ((r.updateWare w fun ware => { ware with pending := f ware.pending }).ware v).steps = (r.ware v).steps ∧
      ((r.updateWare w fun ware => { ware with pending := f ware.pending }).ware v).context = (r.ware v).context := by
  by_cases hv : v < r.wares.size
  · by_cases hwv : w = v
    · subst hwv
      simp [Runner.ware, Runner.updateWare, Array.getElem_modify, hv]
    · simp [Runner.ware, Runner.updateWare, Array.getElem?_modify, hwv]
  · simp [Runner.ware, Runner.updateWare, hv]

end Runner
end Treeworks
