import Treeworks.Proofs.Run.Standing

/-! The futures that wares wait for. A future comes among them when it is watched for a step, and leaves them when it is
discarded for one; whatever else a runner does leaves them as they are. The ware that a ticket is for stays the same. -/
namespace Treeworks

/-- Whether a move changes what wares wait for. -/
def Move.waits : Move → Bool
  | .settled .. | .watching _ => true
  | _ => false

namespace Runner
variable {r r' : Runner} {base : Nat → List Nat} {τ υ : History} {m : Move} {t : Nat}

/-- The futures that a ware waits for. -/
def pending (r : Runner) (w : Nat) : List Nat := (r.ware w).pending

/-- The ware whose run a ticket is for. -/
def wareOf (r : Runner) (t : Nat) : Nat := (r.run (r.ticket t).run).ware

theorem pending_of_le {w : Nat} (hw : r.wares.size ≤ w) : r.pending w = [] := by
  simp only [pending, ware, Array.getD_eq_getD_getElem?, Array.getElem?_eq_none hw, Option.getD_none]
  rfl

theorem pending_congr (h : r'.wares = r.wares) (w : Nat) : r'.pending w = r.pending w := by
  rw [pending, ware, h, pending, ware]

theorem pending_updateWare (r : Runner) (w : Nat) (f : List Nat → List Nat) (v : Nat) :
    (r.updateWare w fun ware => { ware with pending := f ware.pending }).pending v =
      if w = v ∧ v < r.wares.size then f (r.pending v) else r.pending v := by
  simp only [pending, ware, updateWare, Array.getD_eq_getD_getElem?, Array.getElem?_modify]
  by_cases hv : v < r.wares.size
  · by_cases hw : w = v <;> simp [hv, hw]
  · simp [hv]

/-! ### What leaves the wares as they are -/

theorem wares_drive (r : Runner) (i : Nat) : (r.drive i).1.wares = r.wares := by
  unfold drive
  dsimp only
  split <;> rfl

theorem wares_resume (r : Runner) (i : Nat) (drives : Bool) : (r.resume i drives).1.wares = r.wares := by
  cases drives with
  | true => exact wares_drive r i
  | false => rfl

theorem wares_proceed (r : Runner) (i : Nat) (step : Option Nat) : (r.proceed i step).1.wares = r.wares := by
  cases step <;> rfl

theorem wares_advance (r : Runner) (i : Nat) (drives : Bool) (e : Option Value) :
    (r.advance i drives e).1.wares = r.wares := by
  cases e with
  | some e => rfl
  | none =>
    simp only [advance]
    split
    · exact wares_drive _ i
    · split
      · rfl
      · exact wares_drive _ i

theorem wares_complete (r : Runner) (t : Nat) (drives : Bool) (e : Option Value) :
    (r.complete t drives e).1.wares = r.wares := by
  unfold complete
  dsimp only
  split
  · exact wares_resume r _ drives
  · exact wares_advance _ _ drives e

theorem wares_abandon (r : Runner) (a : Activation) (e : Value) : (r.abandon a e).1.wares = r.wares := by
  unfold abandon
  dsimp only
  split <;> rfl

theorem wares_returned (r : Runner) (a : Activation) (v : Value) (awaitable : Bool) :
    (r.returned a v awaitable).1.wares = r.wares := by
  unfold returned
  split
  · rfl
  · rfl
  · exact wares_resume r _ _
  · exact wares_complete r _ true _
  · split
    · exact wares_drive r _
    · split
      · exact wares_complete r _ true _
      · split
        · rfl
        · exact wares_complete r _ true none

theorem wares_raised (r : Runner) (a : Activation) (e : Value) (ordinary : Bool) :
    (r.raised a e ordinary).1.wares = r.wares := by
  have habandon := wares_abandon r a e
  obtain ⟨i, drives, wait⟩ := a
  cases wait with
  | seeking | finished | failed => exact habandon
  | step t =>
    simp only [raised]
    split
    · exact wares_complete r t true (some e)
    · exact habandon
  | settling t =>
    simp only [raised]
    split
    · exact wares_complete r t true (some e)
    · exact habandon

theorem wares_react (hm : m.waits = false) : (r.react m).1.wares = r.wares := by
  cases m with
  | start w inputs done => exact wares_advance _ _ false none
  | next t e => exact wares_complete r t false e
  | settled | watching => cases hm
  | found step =>
    simp only [react]
    split
    · rfl
    · exact wares_proceed _ _ step
  | returned v awaitable =>
    simp only [react]
    split
    · rfl
    · exact wares_returned _ _ v awaitable
  | raised e ordinary =>
    simp only [react]
    split
    · rfl
    · exact wares_raised _ _ e ordinary

/-! ### What changes them -/

/-- A future that is discarded for a step is no longer waited for by the ware of the step. -/
theorem pending_discard (r : Runner) (t future w : Nat) :
    (r.discard t future).pending w = if r.wareOf t = w then (r.pending w).erase future else r.pending w := by
  rw [discard, pending_updateWare r _ fun l => l.erase future]
  by_cases hw : w < r.wares.size
  · simp only [hw, and_true, wareOf]
    rfl
  · simp [hw, pending_of_le (Nat.le_of_not_lt hw)]

theorem sublist_discard (r : Runner) (t future w : Nat) : ((r.discard t future).pending w).Sublist (r.pending w) := by
  rw [pending_discard]
  split
  · exact List.erase_sublist
  · exact List.Sublist.refl _

theorem wares_settled (r : Runner) (t future : Nat) (e : Option Value) :
    (r.react (.settled t future e)).1.wares = (r.discard t future).wares := by
  cases e with
  | none => exact wares_complete (r.discard t future) t false none
  | some e => exact wares_complete (r.discard t future) t false (some e)

/-- A future that is watched for a step is waited for by the ware of the step. -/
theorem pending_watching {a : Activation} {rest : List Activation} (hs : r.stack = a :: rest) (future w : Nat) :
    (r.react (.watching future)).1.pending w = if (r.run a.run).ware = w ∧ w < r.wares.size then
      (if (r.pending w).contains future then r.pending w else r.pending w ++ [future]) else r.pending w := by
  let f (l : List Nat) : List Nat := if l.contains future then l else l ++ [future]
  rw [← pending_updateWare r _ f w]
  simp only [react, hs]
  exact pending_congr (wares_drive _ _) w

theorem size_wares_updateWare (r : Runner) (w : Nat) (f : Ware → Ware) : (r.updateWare w f).wares.size = r.wares.size :=
  Array.size_modify

theorem size_wares_react (r : Runner) (m : Move) : (r.react m).1.wares.size = r.wares.size := by
  cases m with
  | start | found | next | returned | raised => rw [wares_react rfl]
  | settled t future e =>
    rw [wares_settled]
    exact size_wares_updateWare r _ _
  | watching future =>
    simp only [react]
    split
    · rfl
    · rw [wares_drive]
      exact size_wares_updateWare _ _ _

/-! ### The wares of runs and tickets -/

/-- The run that a ticket is for stays the same. -/
theorem Tables.run_eq (h : r.Tables base τ none) (h' : r'.Tables base (τ ++ υ) none) (ht : t < r.tickets.size) :
    t < r'.tickets.size ∧ (r'.ticket t).run = (r.ticket t).run := by
  obtain ⟨-, hmem, -⟩ := h.ticket t ht
  have hlater : (t, (r.ticket t).step) ∈ (τ ++ υ).invocations (r.ticket t).run := by
    rw [History.invocations_append]
    exact List.mem_append_left _ hmem
  exact h'.invocation _ _ hlater

/-- The ware that a ticket is for stays the same. -/
theorem Tables.wareOf_eq (h : r.Tables base τ none) (h' : r'.Tables base (τ ++ υ) none) (ht : t < r.tickets.size) :
    t < r'.tickets.size ∧ r'.wareOf t = r.wareOf t := by
  obtain ⟨ht', hrun⟩ := h.run_eq h' ht
  have hstarted := (h.started (r.ticket t).run _ _ _).mpr ⟨(h.ticket t ht).1, rfl, rfl, rfl⟩
  obtain ⟨-, hware, -⟩ := (h'.started _ _ _ _).mp (List.mem_append_left υ hstarted)
  refine ⟨ht', ?_⟩
  rw [wareOf, hrun, hware, wareOf]

/-- A move begins runs of no wares but those that there are. -/
theorem Tables.ware_lt_react (h : r.Tables base τ none) (h' : (r.react m).1.Tables base (τ ++ r.deeds m) none)
    (hm : ∀ w inputs done, m = .start w inputs done → w < r.wares.size)
    (hhome : ∀ i < r.runs.size, (r.run i).ware < r.wares.size) :
    ∀ i < (r.react m).1.runs.size, ((r.react m).1.run i).ware < (r.react m).1.wares.size := by
  intro i hi
  rw [size_wares_react]
  have hstarted := (h'.started i _ _ _).mpr ⟨hi, rfl, rfl, rfl⟩
  rcases List.mem_append.mp hstarted with hold | hnew
  · obtain ⟨hlt, hware, -⟩ := (h.started i _ _ _).mp hold
    rw [← hware]
    exact hhome i hlt
  · exact hm _ _ _ (started_mem_deeds hnew).1

end Runner
end Treeworks
