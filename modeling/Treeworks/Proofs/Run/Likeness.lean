import Treeworks.Proofs.Run.Ledger

/-! Runners that are alike but for the numbers of their runs and tickets. What a runner does only depends on the runs
and tickets that a move is about, and it changes no others, so alike runners do alike things about alike moves. -/
namespace Treeworks

/-- Which runs and which tickets of one runner stand for which of another. -/
structure Names where
  run : Nat → Nat → Prop
  ticket : Nat → Nat → Prop

namespace Names

/-- Names that stand for more. -/
def Below (n n' : Names) : Prop :=
  (∀ i j, n.run i j → n'.run i j) ∧ ∀ t u, n.ticket t u → n'.ticket t u

theorem Below.refl (n : Names) : n.Below n := ⟨fun _ _ h => h, fun _ _ h => h⟩

theorem Below.trans {n n' n'' : Names} (h : n.Below n') (h' : n'.Below n'') : n.Below n'' :=
  ⟨fun _ _ hij => h'.1 _ _ (h.1 _ _ hij), fun _ _ htu => h'.2 _ _ (h.2 _ _ htu)⟩

/-- One more run on each side. -/
def addRun (n : Names) (i j : Nat) : Names := { n with run := fun i' j' => n.run i' j' ∨ i' = i ∧ j' = j }

/-- One more ticket on each side. -/
def addTicket (n : Names) (t u : Nat) : Names := { n with ticket := fun t' u' => n.ticket t' u' ∨ t' = t ∧ u' = u }

theorem below_addRun (n : Names) (i j : Nat) : n.Below (n.addRun i j) := ⟨fun _ _ h => .inl h, fun _ _ h => h⟩

theorem below_addTicket (n : Names) (t u : Nat) : n.Below (n.addTicket t u) := ⟨fun _ _ h => h, fun _ _ h => .inl h⟩

/-- Values that are the same, but for the number of a continuation. -/
inductive Value (n : Names) : Treeworks.Value → Treeworks.Value → Prop
  | next {t u : Nat} : n.ticket t u → Value n (.next t) (.next u)
  | same {v : Treeworks.Value} : (∀ t, v ≠ .next t) → Value n v v

inductive Wait (n : Names) : Treeworks.Wait → Treeworks.Wait → Prop
  | seeking : Wait n .seeking .seeking
  | step {t u : Nat} : n.ticket t u → Wait n (.step t) (.step u)
  | settling {t u : Nat} : n.ticket t u → Wait n (.settling t) (.settling u)
  | failed : Wait n .failed .failed
  | finished : Wait n .finished .finished

/-- Activations of runs that stand for each other, which wait for the same. -/
structure Activation (n : Names) (a b : Treeworks.Activation) : Prop where
  run : n.run a.run b.run
  drives : a.drives = b.drives
  wait : n.Wait a.wait b.wait

/-- Runs that have come equally far. -/
structure Run (n : Names) (a b : Treeworks.Run) : Prop where
  ware : a.ware = b.ware
  inputs : a.inputs = b.inputs
  done : n.Value a.done b.done
  index : a.index = b.index
  ready : a.ready = b.ready
  driving : a.driving = b.driving

structure Ticket (n : Names) (a b : Treeworks.Ticket) : Prop where
  run : n.run a.run b.run
  step : a.step = b.step
  given : a.given = b.given
  called : a.called = b.called

/-- Directives that ask for the same. A step that is invoked may have its own continuation among its arguments. -/
inductive Directive (n : Names) : Treeworks.Directive → Treeworks.Directive → Prop
  | seek (steps : Treeworks.Value) (index : Nat) : Directive n (.seek steps index) (.seek steps index)
  | invoke {t u : Nat} (step : Step) (inputs : List Treeworks.Value) (context : Option Treeworks.Value) :
      n.ticket t u →
        Directive n (.invoke step (Runner.argumentsOf step inputs t) context)
          (.invoke step (Runner.argumentsOf step inputs u) context)
  | await (v : Treeworks.Value) : Directive n (.await v) (.await v)
  | call {d d' : Treeworks.Value} (args : List Treeworks.Value) : n.Value d d' → Directive n (.call d args) (.call d' args)
  | leave : Directive n .leave .leave
  | fail (e : Treeworks.Value) : Directive n (.fail e) (.fail e)

/-- Moves that are the same, about what stands for each other. -/
inductive Move (n : Names) : Treeworks.Move → Treeworks.Move → Prop
  | start (ware : Nat) (inputs : List Treeworks.Value) {d d' : Treeworks.Value} :
      n.Value d d' → Move n (.start ware inputs d) (.start ware inputs d')
  | found (step : Option Nat) : Move n (.found step) (.found step)
  | next {t u : Nat} (error : Option Treeworks.Value) : n.ticket t u → Move n (.next t error) (.next u error)
  | settled {t u : Nat} (future : Nat) (error : Option Treeworks.Value) :
      n.ticket t u → Move n (.settled t future error) (.settled u future error)
  | returned (value : Treeworks.Value) (awaitable : Bool) : Move n (.returned value awaitable) (.returned value awaitable)
  | raised (error : Treeworks.Value) (ordinary : Bool) : Move n (.raised error ordinary) (.raised error ordinary)
  | watching (future : Nat) : Move n (.watching future) (.watching future)

variable {n n' : Names}

theorem Value.mono (h : n.Below n') {v w : Treeworks.Value} (hv : n.Value v w) : n'.Value v w := by
  cases hv with
  | next ht => exact .next (h.2 _ _ ht)
  | same hne => exact .same hne

theorem Wait.mono (h : n.Below n') {v w : Treeworks.Wait} (hv : n.Wait v w) : n'.Wait v w := by
  cases hv with
  | seeking => exact .seeking
  | step ht => exact .step (h.2 _ _ ht)
  | settling ht => exact .settling (h.2 _ _ ht)
  | failed => exact .failed
  | finished => exact .finished

theorem Activation.mono (h : n.Below n') {a b : Treeworks.Activation} (ha : n.Activation a b) :
    n'.Activation a b :=
  ⟨h.1 _ _ ha.run, ha.drives, ha.wait.mono h⟩

theorem Run.mono (h : n.Below n') {a b : Treeworks.Run} (ha : n.Run a b) : n'.Run a b :=
  ⟨ha.ware, ha.inputs, ha.done.mono h, ha.index, ha.ready, ha.driving⟩

theorem Ticket.mono (h : n.Below n') {a b : Treeworks.Ticket} (ha : n.Ticket a b) : n'.Ticket a b :=
  ⟨h.1 _ _ ha.run, ha.step, ha.given, ha.called⟩

end Names

namespace Runner

/-- A runner that does alike what another does, as far as the names go: the runs and tickets that they relate are
alike, and no two of one stand for the same of the other. -/
structure Alike (n : Names) (r s : Runner) : Prop where
  steps : r.steps = s.steps
  wares : ∀ w, (r.ware w).steps = (s.ware w).steps ∧ (r.ware w).context = (s.ware w).context
  run : ∀ i j, n.run i j → i < r.runs.size ∧ j < s.runs.size ∧ n.Run (r.run i) (s.run j)
  ticket : ∀ t u, n.ticket t u → t < r.tickets.size ∧ u < s.tickets.size ∧ n.Ticket (r.ticket t) (s.ticket u)
  run_inj : ∀ i j i' j', n.run i j → n.run i' j' → (i = i' ↔ j = j')
  ticket_inj : ∀ t u t' u', n.ticket t u → n.ticket t' u' → (t = t' ↔ u = u')

/-- A runner that has come from another by changing no runs and tickets but those that have names. -/
structure Keeps (n : Names) (o r : Runner) : Prop where
  steps : r.steps = o.steps
  wares : ∀ w, (r.ware w).steps = (o.ware w).steps ∧ (r.ware w).context = (o.ware w).context
  runs_size : o.runs.size ≤ r.runs.size
  tickets_size : o.tickets.size ≤ r.tickets.size
  run : ∀ i < o.runs.size, (∀ j, ¬n.run i j) → r.run i = o.run i
  ticket : ∀ t < o.tickets.size, (∀ u, ¬n.ticket t u) → r.ticket t = o.ticket t

/-- Alike runners, with the activations on their stacks alike one by one, of which the first has come from another by
changing only what has names. -/
structure Twin (n : Names) (o r s : Runner) : Prop extends Alike n r s where
  keeps : Keeps n o r
  stack : List.Forall₂ n.Activation r.stack s.stack

/-- Twins that have to do the same next. -/
def Twins (n : Names) (o : Runner) (p q : Runner × Directive) : Prop := Twin n o p.1 q.1 ∧ n.Directive p.2 q.2

variable {n : Names} {o r s : Runner} {i j t u : Nat}

theorem Keeps.refl (n : Names) (r : Runner) : Keeps n r r :=
  ⟨rfl, fun _ => ⟨rfl, rfl⟩, Nat.le_refl _, Nat.le_refl _, fun _ _ _ => rfl, fun _ _ _ => rfl⟩

namespace Twin

/-- A change of the flags and the index of a run, the same on both sides. -/
theorem updateRun (h : Twin n o r s) (hij : n.run i j) (f : Run → Run)
    (hf : ∀ a b, n.Run a b → n.Run (f a) (f b)) : Twin n o (r.updateRun i f) (s.updateRun j f) where
  steps := h.steps
  wares := h.wares
  run := by
    intro i' j' hij'
    obtain ⟨hi, hj, hrun⟩ := h.run i' j' hij'
    refine ⟨by simpa using hi, by simpa using hj, ?_⟩
    by_cases hii : i = i'
    · have hjj : j = j' := (h.run_inj i j i' j' hij hij').mp hii
      subst hii hjj
      rw [run_updateRun_self r i f hi, run_updateRun_self s j f hj]
      exact hf _ _ hrun
    · have hjj : j ≠ j' := fun hjj => hii ((h.run_inj i j i' j' hij hij').mpr hjj)
      rw [run_updateRun_of_ne r i i' f hii, run_updateRun_of_ne s j j' f hjj]
      exact hrun
  ticket := h.ticket
  run_inj := h.run_inj
  ticket_inj := h.ticket_inj
  keeps := { h.keeps with
    runs_size := by simpa using h.keeps.runs_size
    run := by
      intro i' hi' hfree
      have hii : i ≠ i' := fun hii => hfree j (hii ▸ hij)
      rw [run_updateRun_of_ne r i i' f hii]
      exact h.keeps.run i' hi' hfree }
  stack := h.stack

theorem push (h : Twin n o r s) {a b : Activation} (hab : n.Activation a b) : Twin n o (r.push a) (s.push b) where
  steps := h.steps
  wares := h.wares
  run := h.run
  ticket := h.ticket
  run_inj := h.run_inj
  ticket_inj := h.ticket_inj
  keeps := ⟨h.keeps.steps, h.keeps.wares, h.keeps.runs_size, h.keeps.tickets_size, h.keeps.run, h.keeps.ticket⟩
  stack := .cons hab h.stack

/-- Without the activations below, on both sides. -/
theorem stacked (h : Twin n o r s) {l m : List Activation} (hlm : List.Forall₂ n.Activation l m) :
    Twin n o { r with stack := l } { s with stack := m } where
  steps := h.steps
  wares := h.wares
  run := h.run
  ticket := h.ticket
  run_inj := h.run_inj
  ticket_inj := h.ticket_inj
  keeps := ⟨h.keeps.steps, h.keeps.wares, h.keeps.runs_size, h.keeps.tickets_size, h.keeps.run, h.keeps.ticket⟩
  stack := hlm

theorem mark (h : Twin n o r s) (htu : n.ticket t u) : Twin n o (r.mark t) (s.mark u) where
  steps := h.steps
  wares := h.wares
  run := h.run
  ticket := by
    intro t' u' htu'
    obtain ⟨ht, hu, hticket⟩ := h.ticket t' u' htu'
    refine ⟨by simpa using ht, by simpa using hu, ?_⟩
    by_cases htt : t = t'
    · have huu : u = u' := (h.ticket_inj t u t' u' htu htu').mp htt
      subst htt huu
      rw [ticket_mark_self r t ht, ticket_mark_self s u hu]
      exact ⟨hticket.run, hticket.step, hticket.given, rfl⟩
    · have huu : u ≠ u' := fun huu => htt ((h.ticket_inj t u t' u' htu htu').mpr huu)
      rw [ticket_mark_of_ne r t' t htt, ticket_mark_of_ne s u' u huu]
      exact hticket
  run_inj := h.run_inj
  ticket_inj := h.ticket_inj
  keeps := { h.keeps with
    tickets_size := by simpa using h.keeps.tickets_size
    ticket := by
      intro t' ht' hfree
      have htt : t ≠ t' := fun htt => hfree u (htt ▸ htu)
      rw [ticket_mark_of_ne r t' t htt]
      exact h.keeps.ticket t' ht' hfree }
  stack := h.stack

/-- The futures that a ware waits for do not matter. -/
theorem updatePending (h : Twin n o r s) (v w : Nat) (f : List Nat → List Nat) :
    Twin n o (r.updateWare v fun ware => { ware with pending := f ware.pending })
      (s.updateWare w fun ware => { ware with pending := f ware.pending }) where
  steps := h.steps
  wares := by
    intro x
    obtain ⟨hr, hr'⟩ := ware_updatePending r v f x
    obtain ⟨hs, hs'⟩ := ware_updatePending s w f x
    rw [hr, hr', hs, hs']
    exact h.wares x
  run := h.run
  ticket := h.ticket
  run_inj := h.run_inj
  ticket_inj := h.ticket_inj
  keeps := { h.keeps with
    wares := by
      intro x
      obtain ⟨hr, hr'⟩ := ware_updatePending r v f x
      rw [hr, hr']
      exact h.keeps.wares x }
  stack := h.stack

end Twin
end Runner
end Treeworks
