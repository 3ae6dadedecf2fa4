import Mathlib.Data.List.Forall2
import Treeworks.Proofs.Run.Likeness

/-! Alike runners make alike moves: what they have to do next is the same, and they stay alike. -/
namespace Treeworks

/-- The names after a move, for the run or the ticket that it makes. -/
def Names.after (n : Names) (r s : Runner) : Treeworks.Move → Names
  | .start .. => n.addRun r.runs.size s.runs.size
  | .found (some _) => n.addTicket r.tickets.size s.tickets.size
  | _ => n

theorem Names.below_after (n : Names) (r s : Runner) (m : Treeworks.Move) : n.Below (n.after r s m) := by
  cases m with
  | start => exact n.below_addRun _ _
  | found step =>
    cases step with
    | none => exact .refl n
    | some k => exact n.below_addTicket _ _
  | next | settled | returned | raised | watching => exact .refl n

namespace Runner
variable {n : Names} {o r s : Runner} {i j t u : Nat}

theorem Alike.ready (h : Alike n r s) (hij : n.run i j) : (r.run i).ready = (s.run j).ready := (h.run i j hij).2.2.ready

theorem Alike.called (h : Alike n r s) (htu : n.ticket t u) : (r.ticket t).called = (s.ticket u).called :=
  (h.ticket t u htu).2.2.called

/-- Alike tickets are for the same step. -/
theorem Alike.stepOf (h : Alike n r s) (htu : n.ticket t u) : r.stepOf t = s.stepOf u := by
  have hstep : (r.ticket t).step = (s.ticket u).step := (h.ticket t u htu).2.2.step
  rw [Runner.stepOf, Runner.stepOf, Runner.step, Runner.step, h.steps, hstep]

/-- Alike runs have wares with the same list of steps and the same context. -/
theorem Alike.ware (h : Alike n r s) (hij : n.run i j) :
    (r.ware (r.run i).ware).steps = (s.ware (s.run j).ware).steps ∧
      (r.ware (r.run i).ware).context = (s.ware (s.run j).ware).context := by
  rw [(h.run i j hij).2.2.ware]
  exact h.wares _

namespace Twin

/-- A run that is added on both sides gets a name. -/
theorem addRun (h : Twin n o r s) {x y : Run} (hxy : n.Run x y) :
    Twin (n.addRun r.runs.size s.runs.size) o { r with runs := r.runs.push x } { s with runs := s.runs.push y } where
  steps := h.steps
  wares := h.wares
  run := by
    have hbelow := n.below_addRun r.runs.size s.runs.size
    rintro i j (hij | ⟨rfl, rfl⟩)
    · obtain ⟨hi, hj, hrun⟩ := h.run i j hij
      refine ⟨by simp; omega, by simp; omega, ?_⟩
      rw [run_addRun_of_ne r _ x (Nat.ne_of_lt hi), run_addRun_of_ne s _ y (Nat.ne_of_lt hj)]
      exact hrun.mono hbelow
    · refine ⟨by simp, by simp, ?_⟩
      rw [run_addRun_self, run_addRun_self]
      exact hxy.mono hbelow
  ticket := by
    intro t u htu
    obtain ⟨ht, hu, hticket⟩ := h.ticket t u htu
    exact ⟨ht, hu, hticket.mono (n.below_addRun _ _)⟩
  run_inj := by
    rintro i j i' j' (hij | ⟨rfl, rfl⟩) (hij' | ⟨rfl, rfl⟩)
    · exact h.run_inj i j i' j' hij hij'
    · obtain ⟨hi, hj, -⟩ := h.run i j hij
      exact iff_of_false (Nat.ne_of_lt hi) (Nat.ne_of_lt hj)
    · obtain ⟨hi, hj, -⟩ := h.run i' j' hij'
      exact iff_of_false (Nat.ne_of_gt hi) (Nat.ne_of_gt hj)
    · exact iff_of_true rfl rfl
  ticket_inj := h.ticket_inj
  keeps := { h.keeps with
    runs_size := by simpa using Nat.le_succ_of_le h.keeps.runs_size
    run := by
      intro i hi hfree
      rw [run_addRun_of_ne r _ x (Nat.ne_of_lt (Nat.lt_of_lt_of_le hi h.keeps.runs_size))]
      exact h.keeps.run i hi fun j hij => hfree j (.inl hij) }
  stack := h.stack.imp fun _ _ hab => hab.mono (n.below_addRun _ _)

/-- A ticket that is added on both sides gets a name. -/
theorem addTicket (h : Twin n o r s) {x y : Ticket} (hxy : n.Ticket x y) :
    Twin (n.addTicket r.tickets.size s.tickets.size) o { r with tickets := r.tickets.push x }
      { s with tickets := s.tickets.push y } where
  steps := h.steps
  wares := h.wares
  run := by
    intro i j hij
    obtain ⟨hi, hj, hrun⟩ := h.run i j hij
    exact ⟨hi, hj, hrun.mono (n.below_addTicket _ _)⟩
  ticket := by
    have hbelow := n.below_addTicket r.tickets.size s.tickets.size
    rintro t u (htu | ⟨rfl, rfl⟩)
    · obtain ⟨ht, hu, hticket⟩ := h.ticket t u htu
      refine ⟨by simp; omega, by simp; omega, ?_⟩
      rw [ticket_addTicket_of_ne r _ x (Nat.ne_of_lt ht), ticket_addTicket_of_ne s _ y (Nat.ne_of_lt hu)]
      exact hticket.mono hbelow
    · refine ⟨by simp, by simp, ?_⟩
      rw [ticket_addTicket_self, ticket_addTicket_self]
      exact hxy.mono hbelow
  run_inj := h.run_inj
  ticket_inj := by
    rintro t u t' u' (htu | ⟨rfl, rfl⟩) (htu' | ⟨rfl, rfl⟩)
    · exact h.ticket_inj t u t' u' htu htu'
    · obtain ⟨ht, hu, -⟩ := h.ticket t u htu
      exact iff_of_false (Nat.ne_of_lt ht) (Nat.ne_of_lt hu)
    · obtain ⟨ht, hu, -⟩ := h.ticket t' u' htu'
      exact iff_of_false (Nat.ne_of_gt ht) (Nat.ne_of_gt hu)
    · exact iff_of_true rfl rfl
  keeps := { h.keeps with
    tickets_size := by simpa using Nat.le_succ_of_le h.keeps.tickets_size
    ticket := by
      intro t ht hfree
      rw [ticket_addTicket_of_ne r _ x (Nat.ne_of_lt (Nat.lt_of_lt_of_le ht h.keeps.tickets_size))]
      exact h.keeps.ticket t ht fun u htu => hfree u (.inl htu) }
  stack := h.stack.imp fun _ _ hab => hab.mono (n.below_addTicket _ _)

/-- The loop over the steps goes on, or ends, on both sides. -/
theorem drive (h : Twin n o r s) (hij : n.run i j) : Twins n o (r.drive i) (s.drive j) := by
  obtain ⟨-, -, hrun⟩ := h.run i j hij
  unfold Runner.drive
  dsimp only
  rw [h.ready hij]
  split
  · have hidle : Twin n o (r.updateRun i fun run => { run with ready := false })
        (s.updateRun j fun run => { run with ready := false }) :=
      h.updateRun hij _ fun a b hab => { hab with ready := rfl }
    refine ⟨hidle.push ⟨hij, rfl, .seeking⟩, ?_⟩
    rw [(h.ware hij).1, hrun.index]
    exact .seek _ _
  · exact ⟨h.updateRun hij _ fun a b hab => { hab with driving := rfl }, .leave⟩

theorem resume (h : Twin n o r s) (hij : n.run i j) (drives : Bool) :
    Twins n o (r.resume i drives) (s.resume j drives) := by
  cases drives with
  | true => exact h.drive hij
  | false => exact ⟨h, .leave⟩

/-- What stands at the index is invoked on both sides, or completion is reported. -/
theorem proceed (h : Twin n o r s) (hij : n.run i j) (step : Option Nat) :
    Twins (n.after r s (.found step)) o (r.proceed i step) (s.proceed j step) := by
  obtain ⟨-, -, hrun⟩ := h.run i j hij
  cases step with
  | none =>
    have hfinished : n.Activation ⟨i, true, .finished⟩ ⟨j, true, .finished⟩ := ⟨hij, rfl, .finished⟩
    refine ⟨h.push hfinished, ?_⟩
    dsimp only [Runner.proceed]
    rw [hrun.inputs]
    exact .call _ hrun.done
  | some k =>
    have hstep : r.step k = s.step k := by rw [Runner.step, Runner.step, h.steps]
    have hupdate : Twin n o (r.updateRun i fun run => { run with index := run.index + 1 })
        (s.updateRun j fun run => { run with index := run.index + 1 }) :=
      h.updateRun hij _ fun a b hab => { hab with index := congrArg (· + 1) hab.index }
    have hticket : n.Ticket ⟨i, k, (r.step k).takesNext (r.run i).inputs.length, false⟩
        ⟨j, k, (s.step k).takesNext (s.run j).inputs.length, false⟩ :=
      ⟨hij, rfl, by rw [hstep, hrun.inputs], rfl⟩
    have hnew : (n.addTicket r.tickets.size s.tickets.size).ticket r.tickets.size s.tickets.size := .inr ⟨rfl, rfl⟩
    have hwait : (n.addTicket r.tickets.size s.tickets.size).Activation ⟨i, true, .step r.tickets.size⟩
        ⟨j, true, .step s.tickets.size⟩ := ⟨hij, rfl, .step hnew⟩
    refine ⟨(hupdate.addTicket hticket).push hwait, ?_⟩
    change (n.addTicket r.tickets.size s.tickets.size).Directive
      (.invoke (r.step k) (argumentsOf (r.step k) (r.run i).inputs r.tickets.size)
        (if (r.step k).takesContext then some (r.ware (r.run i).ware).context else none))
      (.invoke (s.step k) (argumentsOf (s.step k) (s.run j).inputs s.tickets.size)
        (if (s.step k).takesContext then some (s.ware (s.run j).ware).context else none))
    rw [hstep, hrun.inputs, (h.ware hij).2]
    exact .invoke _ _ _ hnew

/-- A run that was told of a completion goes on, or reports the error, on both sides. -/
theorem advance (h : Twin n o r s) (hij : n.run i j) (drives : Bool) (e : Option Value) :
    Twins n o (r.advance i drives e) (s.advance j drives e) := by
  obtain ⟨hi, hj, hrun⟩ := h.run i j hij
  cases e with
  | some e => exact ⟨h.push ⟨hij, rfl, .failed⟩, .call _ hrun.done⟩
  | none =>
    have hready : Twin n o (r.updateRun i fun run => { run with ready := true })
        (s.updateRun j fun run => { run with ready := true }) :=
      h.updateRun hij _ fun a b hab => { hab with ready := rfl }
    cases drives with
    | true => exact hready.drive hij
    | false =>
      have hdriving : ((r.updateRun i fun run => { run with ready := true }).run i).driving =
          ((s.updateRun j fun run => { run with ready := true }).run j).driving :=
        (hready.run i j hij).2.2.driving
      simp only [Runner.advance, Bool.false_eq_true, if_false]
      rw [hdriving]
      split
      · exact ⟨hready, .leave⟩
      · have hdrive := hready.updateRun hij (fun run => { run with driving := true })
          fun a b hab => { hab with driving := rfl }
        exact hdrive.drive hij

/-- A continuation that is called on both sides was called before on both or on none. -/
theorem complete (h : Twin n o r s) (htu : n.ticket t u) (drives : Bool) (e : Option Value) :
    Twins n o ((r.complete t drives e).1, (r.complete t drives e).2.2)
      ((s.complete u drives e).1, (s.complete u drives e).2.2) := by
  obtain ⟨-, -, hticket⟩ := h.ticket t u htu
  unfold Runner.complete
  dsimp only
  rw [h.called htu]
  split
  · exact h.resume hticket.run drives
  · exact (h.mark htu).advance hticket.run drives e

theorem failStep (h : Twin n o r s) (htu : n.ticket t u) (e : Value) :
    Twins n o ((r.failStep t e).1, (r.failStep t e).2.2) ((s.failStep u e).1, (s.failStep u e).2.2) :=
  h.complete htu true (some e)

theorem abandon (h : Twin n o r s) {a b : Activation} (hab : n.Activation a b) (e : Value) :
    Twins n o (r.abandon a e) (s.abandon b e) := by
  unfold Runner.abandon
  rw [hab.drives]
  refine ⟨?_, .fail e⟩
  dsimp only
  split
  · exact h.updateRun hab.run _ fun a b hab => { hab with driving := rfl }
  · exact h

/-- The outside calls of alike activations return alike. -/
theorem returned (h : Twin n o r s) {a b : Activation} (hab : n.Activation a b) (v : Value) (awaitable : Bool) :
    Twins n o ((r.returned a v awaitable).1, (r.returned a v awaitable).2.2)
      ((s.returned b v awaitable).1, (s.returned b v awaitable).2.2) := by
  obtain ⟨i, drives, wait⟩ := a
  obtain ⟨j, drives', wait'⟩ := b
  obtain ⟨hij, hdrives, hwait⟩ := hab
  dsimp only at hij hdrives hwait
  subst hdrives
  have hleave : Twin n o (r.updateRun i fun run => { run with driving := false })
      (s.updateRun j fun run => { run with driving := false }) :=
    h.updateRun hij _ fun a b hab => { hab with driving := rfl }
  cases hwait with
  | seeking => exact ⟨hleave, .leave⟩
  | finished => exact ⟨hleave, .leave⟩
  | failed => exact h.resume hij drives
  | settling htu => exact h.complete htu true _
  | @step t u htu =>
    obtain ⟨-, -, hticket⟩ := h.ticket t u htu
    simp only [Runner.returned]
    rw [hticket.given]
    by_cases hgiven : (s.ticket u).given
    · rw [if_pos hgiven, if_pos hgiven]
      exact h.drive hij
    · rw [if_neg hgiven, if_neg hgiven]
      by_cases hfault : v.isFault
      · rw [if_pos hfault, if_pos hfault]
        exact h.complete htu true _
      · rw [if_neg hfault, if_neg hfault]
        cases awaitable with
        | true => exact ⟨h.push ⟨hij, rfl, .settling htu⟩, .await v⟩
        | false => exact h.complete htu true none

/-- The outside calls of alike activations raise alike. -/
theorem raised (h : Twin n o r s) {a b : Activation} (hab : n.Activation a b) (e : Value) (ordinary : Bool) :
    Twins n o ((r.raised a e ordinary).1, (r.raised a e ordinary).2.2)
      ((s.raised b e ordinary).1, (s.raised b e ordinary).2.2) := by
  have habandon := h.abandon hab e
  obtain ⟨i, drives, wait⟩ := a
  obtain ⟨j, drives', wait'⟩ := b
  obtain ⟨hij, hdrives, hwait⟩ := hab
  dsimp only at hij hdrives hwait
  cases hwait with
  | seeking => exact habandon
  | finished => exact habandon
  | failed => exact habandon
  | settling htu =>
    cases ordinary with
    | true => exact h.failStep htu e
    | false => exact habandon
  | @step t u htu =>
    simp only [Runner.raised]
    rw [h.called htu]
    split
    · exact h.failStep htu e
    · exact habandon

/-- Without its topmost activation, if the stack has one. -/
theorem pop (h : Twin n o r s) {a : Activation} {rest : List Activation} (hs : r.stack = a :: rest) :
    ∃ b rest', s.stack = b :: rest' ∧ n.Activation a b ∧ Twin n o { r with stack := rest } { s with stack := rest' } := by
  have hstack := h.stack
  rw [hs] at hstack
  cases hstack' : s.stack with
  | nil =>
    rw [hstack'] at hstack
    cases hstack
  | cons b rest' =>
    rw [hstack'] at hstack
    cases hstack with
    | cons hab hrest => exact ⟨b, rest', rfl, hab, h.stacked hrest⟩

theorem stack_nil (h : Twin n o r s) (hs : r.stack = []) : s.stack = [] := by
  have hstack := h.stack
  rw [hs] at hstack
  exact List.forall₂_nil_left_iff.mp hstack

/-- Alike runners make alike moves. -/
theorem react (h : Twin n o r s) {m m' : Move} (hm : n.Move m m') (hfound : m.finds = false ∨ r.stack ≠ []) :
    Twins (n.after r s m) o ((r.react m).1, (r.react m).2.2) ((s.react m').1, (s.react m').2.2) := by
  -- Each move starts on what is alike, the stack or a ticket, and what the runner does with it is alike.
  cases hm with
  | @start ware inputs done done' hdone =>
    have hrun : n.Run ⟨ware, inputs, done, 0, false, false⟩ ⟨ware, inputs, done', 0, false, false⟩ :=
      ⟨rfl, rfl, hdone, rfl, rfl, rfl⟩
    exact (h.addRun hrun).advance (.inr ⟨rfl, rfl⟩) false none
  | found step =>
    simp only [Runner.react]
    cases hs : r.stack with
    | nil =>
      rcases hfound with hfound | hfound
      · cases hfound
      · exact absurd hs hfound
    | cons a rest =>
      obtain ⟨b, rest', hs', hab, hpop⟩ := h.pop hs
      rw [hs']
      exact hpop.proceed hab.run step
  | next e htu => exact h.complete htu false e
  | @settled t u future e htu =>
    have hsettle := h.updatePending (r.run (r.ticket t).run).ware (s.run (s.ticket u).run).ware fun l => l.erase future
    cases e with
    | none => exact hsettle.complete htu false none
    | some e => exact hsettle.complete htu false (some e)
  | returned v awaitable =>
    simp only [Runner.react]
    cases hs : r.stack with
    | nil =>
      rw [h.stack_nil hs]
      exact ⟨h, .leave⟩
    | cons a rest =>
      obtain ⟨b, rest', hs', hab, hpop⟩ := h.pop hs
      rw [hs']
      exact hpop.returned hab v awaitable
  | raised e ordinary =>
    simp only [Runner.react]
    cases hs : r.stack with
    | nil =>
      rw [h.stack_nil hs]
      exact ⟨h, .fail e⟩
    | cons a rest =>
      obtain ⟨b, rest', hs', hab, hpop⟩ := h.pop hs
      rw [hs']
      exact hpop.raised hab e ordinary
  | watching future =>
    simp only [Runner.react]
    cases hs : r.stack with
    | nil =>
      rw [h.stack_nil hs]
      exact ⟨h, .leave⟩
    | cons a rest =>
      obtain ⟨b, rest', hs', hab, hpop⟩ := h.pop hs
      rw [hs']
      have hwatch := hpop.updatePending (r.run a.run).ware (s.run b.run).ware
        fun l => if l.contains future then l else l ++ [future]
      exact hwatch.drive hab.run

end Twin
end Runner
end Treeworks
