import Treeworks.Proofs.Run.Moves
import Treeworks.Proofs.Run.Play

/-! Runs that are lost. An error that the runner lets through ends the loop over the steps; when it comes
between two steps, or takes the place of the last step's completion, nothing is left that could go on. -/
namespace Treeworks
variable {base : Nat → List Nat} {r : Runner} {τ υ : History} {held : Option Nat} {i j t : Nat}

namespace History

/-- An error was let through for a run between two of its steps: those invoked so far had all completed without
an error, and the callback had not been called. -/
def Stranded (τ : History) (i : Nat) : Prop :=
  ∃ (α : History) (t : Nat) (e : Value) (β : History),
    τ = α ++ .escaped i t e :: β ∧ α.Cleared i ∧ α.reports i = []

/-- An error was let through for a step that has not completed. -/
def Deserted (τ : History) (i : Nat) : Prop :=
  ∃ t ∈ τ.tickets i, τ.firstCompletion t = none ∧ ∃ e, .escaped i t e ∈ τ

/-- Every step that was invoked for a run has ended: it has completed, or its error was let through. -/
def Ended (τ : History) (i : Nat) : Prop :=
  ∀ t ∈ τ.tickets i, (τ.firstCompletion t).isSome ∨ ∃ e, .escaped i t e ∈ τ

/-- What follows without letting an error through strands no run. -/
theorem stranded_append (h : ∀ t e, .escaped i t e ∉ υ) : (τ ++ υ).Stranded i ↔ τ.Stranded i := by
  constructor
  · rintro ⟨α, t, e, β, heq, hcleared, hreports⟩
    rcases List.append_eq_append_iff.mp heq with ⟨γ, rfl, hγ⟩ | ⟨γ, rfl, hγ⟩
    · exact absurd (by rw [hγ]; simp) (h t e)
    · cases γ with
      | nil =>
        rw [List.nil_append] at hγ
        exact absurd (by rw [← hγ]; simp) (h t e)
      | cons x γ =>
        obtain ⟨rfl, rfl⟩ := List.cons.inj hγ
        exact ⟨α, t, e, γ, rfl, hcleared, hreports⟩
  · rintro ⟨α, t, e, β, rfl, hcleared, hreports⟩
    exact ⟨α, t, e, β ++ υ, by simp, hcleared, hreports⟩

/-- What strands a run when an error is let through. -/
theorem stranded_snoc {e : Value} :
    (τ ++ [Deed.escaped i t e]).Stranded j ↔ τ.Stranded j ∨ (i = j ∧ τ.Cleared j ∧ τ.reports j = []) := by
  constructor
  · rintro ⟨α, u, e', β, heq, hcleared, hreports⟩
    rcases List.eq_nil_or_concat β with rfl | ⟨γ, x, rfl⟩
    · obtain ⟨rfl, hx⟩ := List.append_inj' heq rfl
      cases hx
      exact .inr ⟨rfl, hcleared, hreports⟩
    · rw [List.concat_eq_append, ← List.cons_append, ← List.append_assoc] at heq
      obtain ⟨rfl, -⟩ := List.append_inj' heq rfl
      exact .inl ⟨α, u, e', γ, rfl, hcleared, hreports⟩
  · rintro (⟨α, u, e', β, rfl, hcleared, hreports⟩ | ⟨rfl, hcleared, hreports⟩)
    · exact ⟨α, u, e', β ++ [.escaped i t e], by simp, hcleared, hreports⟩
    · exact ⟨τ, t, e, [], rfl, hcleared, hreports⟩

end History

namespace Runner

/-- A run could go on, but nothing drives it. -/
def Idle (r : Runner) (i : Nat) : Prop := (r.run i).ready = true ∧ (r.run i).driving = false

theorem idle_updateRun_of_ne (f : Run → Run) (h : i ≠ j) : (r.updateRun i f).Idle j ↔ r.Idle j := by
  rw [Idle, run_updateRun_of_ne r i j f h, Idle]

theorem lt_of_idle (h : r.Idle i) : i < r.runs.size := by
  by_contra hi
  have hrun : r.run i = default := by
    rw [Runner.run, Array.getD_eq_getD_getElem?, Array.getElem?_eq_none (by omega)]
    rfl
  rw [Idle, hrun] at h
  cases h.1

/-- The loop leaves no run idle that it drives. -/
theorem idle_drive (hi : i < r.runs.size) : (r.drive i).1.Idle j ↔ i ≠ j ∧ r.Idle j := by
  by_cases hij : i = j
  · subst hij
    by_cases hready : (r.run i).ready <;> simp [Runner.drive, Idle, hready, hi]
  · by_cases hready : (r.run i).ready
    · simp only [Runner.drive, hready, if_true]
      change (r.updateRun i _).Idle j ↔ _
      rw [idle_updateRun_of_ne _ hij]
      simp [hij]
    · simp only [Runner.drive, hready, Bool.false_eq_true, if_false]
      rw [idle_updateRun_of_ne _ hij]
      simp [hij]

theorem Tables.not_idle_of_held (h : r.Tables base τ (some i)) : ¬ r.Idle i := by
  rintro ⟨-, hdriving⟩
  rw [h.drivers_of_held.2] at hdriving
  cases hdriving

theorem Tables.idle_resume {drives : Bool} (h : r.Tables base τ (hold drives i)) (hi : i < r.runs.size) :
    (r.resume i drives).1.Idle j ↔ r.Idle j := by
  cases drives with
  | false => rfl
  | true =>
    simp only [resume, if_true]
    rw [idle_drive hi, and_iff_right_iff_imp]
    rintro hidle rfl
    exact h.not_idle_of_held hidle

/-- A run that goes on is not left idle. -/
theorem idle_advance {drives : Bool} (hi : i < r.runs.size) :
    (r.advance i drives none).1.Idle j ↔ i ≠ j ∧ r.Idle j := by
  have hready : (r.updateRun i fun run => { run with ready := true }).run i = { r.run i with ready := true } :=
    run_updateRun_self r i _ hi
  have hsize : i < (r.updateRun i fun run => { run with ready := true }).runs.size := by simpa using hi
  have hne (hij : i ≠ j) : (r.updateRun i fun run => { run with ready := true }).Idle j ↔ r.Idle j :=
    idle_updateRun_of_ne _ hij
  cases drives with
  | true =>
    simp only [advance, if_true]
    rw [idle_drive hsize]
    exact and_congr_right hne
  | false =>
    by_cases hdriving : (r.run i).driving
    · simp only [advance, Bool.false_eq_true, if_false, hready, hdriving, if_true]
      by_cases hij : i = j
      · subst hij
        simp [Idle, hready, hdriving]
      · simpa [hij] using hne hij
    · simp only [advance, Bool.false_eq_true, if_false, hready, hdriving]
      rw [idle_drive (by simpa using hi)]
      refine and_congr_right fun hij => ?_
      rw [idle_updateRun_of_ne _ hij, hne hij]

/-- A call of a continuation leaves those runs idle that were idle before. -/
theorem Consistent.idle_complete (drives : Bool) (h : r.Consistent base τ (hold drives (r.ticket t).run))
    (ht : t < r.tickets.size) (e : Option Value) : (r.complete t drives e).1.Idle j ↔ r.Idle j := by
  have hi : (r.ticket t).run < r.runs.size := (h.ticket t ht).1
  by_cases hcalled : (r.ticket t).called
  · simp only [Runner.complete, hcalled, if_true]
    exact h.toTables.idle_resume hi
  · rw [Bool.not_eq_true] at hcalled
    obtain ⟨-, hready, -⟩ := h.last_of_uncalled ht hcalled
    have hnot : ¬ r.Idle (r.ticket t).run := fun hidle => by rw [hidle.1] at hready; cases hready
    cases e with
    | some e =>
      simp only [Runner.complete, hcalled, Bool.false_eq_true, if_false, advance]
      exact Iff.rfl
    | none =>
      simp only [Runner.complete, hcalled, Bool.false_eq_true, if_false]
      rw [idle_advance (by exact hi)]
      change (r.ticket t).run ≠ j ∧ r.Idle j ↔ r.Idle j
      rw [and_iff_right_iff_imp]
      rintro hidle rfl
      exact hnot hidle

/-- A run whose callback was called is not ready for a further step. -/
theorem Consistent.ready_of_told (h : r.Consistent base τ held) (hi : i < r.runs.size)
    (htold : τ.reports i ≠ []) : (r.run i).ready = false := by
  cases h.phase i hi with
  | pending _ _ _ unreported => exact absurd unreported htold
  | going unreported => exact absurd unreported htold
  | ended _ _ idle => exact idle

/-- A run that is driven is ready between two steps. -/
theorem Consistent.ready_iff (h : r.Consistent base τ (some i)) :
    (r.run i).ready = true ↔ τ.Cleared i ∧ τ.reports i = [] := by
  have hseeks : ¬ r.Seeks i := h.not_seeks h.drivers_of_held.1
  cases h.phase i (h.held_lt i rfl) with
  | pending earlier t k unreported idle settled last cleared hopen =>
    have ht : t ∈ τ.tickets i := by
      rw [History.tickets, last]
      simp
    simp only [idle, Bool.false_eq_true, false_iff, not_and]
    intro hcleared
    exact absurd (hcleared t ht) (by simp [hopen])
  | going unreported cleared token => simp [token, hseeks, unreported, cleared]
  | ended report reported idle => simp [idle, reported]

/-- An error that ends the loop over the steps leaves its run idle if that was between two steps. -/
theorem Consistent.idle_release (h : r.Consistent base τ (some i)) :
    (r.updateRun i fun run => { run with driving := false }).Idle j ↔
      r.Idle j ∨ (i = j ∧ τ.Cleared j ∧ τ.reports j = []) := by
  have hi : i < r.runs.size := h.held_lt i rfl
  by_cases hij : i = j
  · subst hij
    have hnot : ¬ r.Idle i := h.toTables.not_idle_of_held
    rw [Idle, run_updateRun_self r i _ hi, ← h.ready_iff]
    simp [hnot]
  · rw [idle_updateRun_of_ne _ hij]
    simp [hij]

/-- The loop of a run that was told of its end leaves no run idle. -/
theorem Consistent.idle_release_of_told (h : r.Consistent base τ (some i)) (htold : τ.reports i ≠ []) :
    (r.updateRun i fun run => { run with driving := false }).Idle j ↔ r.Idle j := by
  rw [h.idle_release, or_iff_left]
  rintro ⟨rfl, -, hnone⟩
  exact htold hnone

/-- An error is let through by what the runner does about a move, not by the move itself. -/
theorem escaped_mem_deeds {m : Move} {e : Value} (hmem : .escaped i t e ∈ r.deeds m) :
    .escaped i t e ∈ r.lets m (r.react m).2.2 := by
  simp only [deeds, List.mem_append] at hmem
  rcases hmem with (hmem | hmem) | hmem
  · exfalso
    cases m with
    | start | found | next | settled | watching => simp [signals] at hmem
    | returned v awaitable =>
      simp only [signals] at hmem
      split at hmem
      · simp at hmem
      · split at hmem <;> simp at hmem
      · simp at hmem
    | raised e ordinary =>
      simp only [signals] at hmem
      split at hmem
      · split at hmem <;> simp at hmem
      · split at hmem <;> simp at hmem
      · simp at hmem
      · simp at hmem
      · simp at hmem
  · exact hmem
  · exfalso
    cases hd : (r.react m).2.2 with
    | invoke step args context =>
      rw [hd, demands] at hmem
      split at hmem <;> simp at hmem
    | call done args =>
      rw [hd, demands] at hmem
      split at hmem <;> simp at hmem
    | seek | await | leave | fail => simp [hd, demands] at hmem

/-- A move that lets no error through strands no run. -/
theorem stranded_deeds {m : Move} (hlets : r.lets m (r.react m).2.2 = []) :
    (τ ++ r.deeds m).Stranded j ↔ τ.Stranded j := by
  refine History.stranded_append fun t e hmem => ?_
  have := escaped_mem_deeds hmem
  rw [hlets] at this
  exact List.not_mem_nil this

theorem idle_start (w : Nat) (inputs : List Value) (done : Value) :
    (r.react (.start w inputs done)).1.Idle j ↔ r.Idle j := by
  have hlt : r.runs.size < (r.runs.push ⟨w, inputs, done, 0, false, false⟩).size := by simp
  have hold : r.runs.size ≠ j → (({ r with runs := r.runs.push ⟨w, inputs, done, 0, false, false⟩ } : Runner).Idle j ↔
      r.Idle j) := by
    intro hj
    simp [Idle, Runner.run, Array.getElem?_push, hj.symm]
  simp only [Runner.react]
  rw [idle_advance (by exact hlt)]
  constructor
  · rintro ⟨hj, hidle⟩
    exact (hold hj).mp hidle
  · intro hidle
    have hj : r.runs.size ≠ j := Nat.ne_of_gt (lt_of_idle hidle)
    exact ⟨hj, (hold hj).mpr hidle⟩

theorem idle_proceed (i : Nat) (k : Option Nat) : (r.proceed i k).1.Idle j ↔ r.Idle j := by
  cases k with
  | none => exact Iff.rfl
  | some k =>
    have hidle : (r.updateRun i fun run => { run with index := run.index + 1 }).Idle j ↔ r.Idle j := by
      by_cases hij : i = j
      · subst hij
        by_cases hi : i < r.runs.size
        · rw [Idle, run_updateRun_self r i _ hi, Idle]
        · rw [Idle, Idle]
          simp [Runner.run, updateRun, hi]
      · exact idle_updateRun_of_ne _ hij
    exact hidle

namespace Consistent

theorem idle_next (h : r.Consistent base τ none) (ht : t < r.tickets.size) (e : Option Value) :
    (r.react (.next t e)).1.Idle j ↔ r.Idle j :=
  h.idle_complete false ht e

theorem idle_settled (h : r.Consistent base τ none) (ht : t < r.tickets.size) (future : Nat) (e : Option Value) :
    (r.react (.settled t future e)).1.Idle j ↔ r.Idle j := by
  have hequip := h.equip (r.updateWare (r.run (r.ticket t).run).ware fun w =>
    { w with pending := w.pending.erase future }).wares r.steps
  have hcomplete := hequip.idle_complete (j := j) false ht e
  have hreact : (r.react (.settled t future e)).1 = ((r.updateWare (r.run (r.ticket t).run).ware fun w =>
      { w with pending := w.pending.erase future }).complete t false e).1 := by
    cases e <;> rfl
  rw [hreact]
  exact hcomplete

theorem idle_watching {a : Activation} {rest : List Activation} (h : r.Consistent base τ none)
    (hs : r.stack = a :: rest) (ha : a.wait = .settling t) (future : Nat) :
    (r.react (.watching future)).1.Idle j ↔ r.Idle j := by
  have hmem : a ∈ r.stack := by rw [hs]; exact List.mem_cons_self
  have hdrives : a.drives = true := h.drives a hmem (by rw [ha]; exact Wait.noConfusion)
  have hpop := h.pop hs (by rw [ha]; exact Wait.noConfusion)
  rw [hdrives, hold_true] at hpop
  have hequip := hpop.equip (r.updateWare (r.run a.run).ware fun w =>
    { w with pending := if w.pending.contains future then w.pending else w.pending ++ [future] }).wares r.steps
  have hdrive := idle_drive (j := j) (hequip.held_lt _ rfl)
  have hreact : (r.react (.watching future)).1 = (({ r with
      wares := (r.updateWare (r.run a.run).ware fun w =>
        { w with pending := if w.pending.contains future then w.pending else w.pending ++ [future] }).wares
      stack := rest } : Runner).drive a.run).1 := by
    simp only [Runner.react, hs]
    rfl
  rw [hreact]
  refine hdrive.trans (and_iff_right_iff_imp.mpr ?_)
  rintro hidle rfl
  exact hequip.toTables.not_idle_of_held hidle

/-- An outside call that returns leaves those runs idle that were idle before. -/
theorem idle_returned {a : Activation} {rest : List Activation} (h : r.Consistent base τ none)
    (hs : r.stack = a :: rest) (ha : a.wait ≠ .seeking) (v : Value) (awaitable : Bool) :
    (r.react (.returned v awaitable)).1.Idle j ↔ r.Idle j := by
  have hmem : a ∈ r.stack := by rw [hs]; exact List.mem_cons_self
  have hlt : a.run < r.runs.size := h.run_lt a hmem
  have hpop := h.pop hs ha
  obtain ⟨i, drives, wait⟩ := a
  have hdrives := h.drives _ hmem
  have hwaits := h.waits _ hmem
  simp only [Runner.react, hs, Runner.returned]
  cases wait with
  | seeking => exact absurd rfl ha
  | finished =>
    obtain rfl : drives = true := hdrives (by simp)
    exact hpop.idle_release_of_told (h.told _ hmem (.inr rfl))
  | failed => exact hpop.toTables.idle_resume hlt
  | settling t =>
    obtain rfl : drives = true := hdrives (by simp)
    obtain ⟨ht, hrun⟩ := hwaits t (.inr rfl)
    obtain rfl : (r.ticket t).run = i := hrun
    exact idle_complete (r := { r with stack := rest }) true hpop ht _
  | step t =>
    obtain rfl : drives = true := hdrives (by simp)
    obtain ⟨ht, hrun⟩ := hwaits t (.inl rfl)
    obtain rfl : (r.ticket t).run = i := hrun
    have hcomplete (e : Option Value) : (({ r with stack := rest } : Runner).complete t true e).1.Idle j ↔ r.Idle j :=
      idle_complete (r := { r with stack := rest }) true hpop ht e
    have hdrive : (({ r with stack := rest } : Runner).drive (r.ticket t).run).1.Idle j ↔ r.Idle j :=
      hpop.toTables.idle_resume hlt
    have hticket : ({ r with stack := rest } : Runner).ticket t = r.ticket t := rfl
    simp only [hticket]
    by_cases hgiven : (r.ticket t).given
    · simpa [hgiven] using hdrive
    · by_cases hv : v.isFault
      · simpa [hgiven, hv] using hcomplete (some v)
      · by_cases hawait : awaitable
        · simp only [hgiven, hv, hawait, Bool.false_eq_true, if_false, if_true]
          exact Iff.rfl
        · simpa [hgiven, hv, hawait] using hcomplete none

/-- An error that leaves an activation. -/
theorem idle_abandon {a : Activation} (h : r.Consistent base τ (hold a.drives a.run)) (e : Value) :
    (r.abandon a e).1.Idle j ↔ r.Idle j ∨ (a.drives = true ∧ a.run = j ∧ τ.Cleared j ∧ τ.reports j = []) := by
  unfold Runner.abandon
  cases hdrives : a.drives with
  | false => simp
  | true =>
    rw [hdrives, hold_true] at h
    simpa using h.idle_release

/-- An error that is raised leaves a run idle exactly when it strands it. -/
theorem idle_raised {a : Activation} {rest : List Activation} (h : r.Consistent base τ none)
    (hidle : ∀ j, r.Idle j ↔ τ.Stranded j) (hs : r.stack = a :: rest) (ha : a.wait ≠ .seeking) (e : Value)
    (ordinary : Bool) : (r.react (.raised e ordinary)).1.Idle j ↔ (τ ++ r.deeds (.raised e ordinary)).Stranded j := by
  have hmem : a ∈ r.stack := by rw [hs]; exact List.mem_cons_self
  have hpop := h.pop hs ha
  have hdrives := h.drives _ hmem
  have hwaits := h.waits _ hmem
  -- A callback that raises has been called, so its run is not ready any more.
  have hrefused (hw : a.wait = .failed ∨ a.wait = .finished)
      (hreact : r.react (.raised e ordinary) =
        ((({ r with stack := rest } : Runner).abandon a e).1, [], .fail e)) (hdeeds : ∃ i, r.deeds (.raised e ordinary) = [.refused i e]) :
      (r.react (.raised e ordinary)).1.Idle j ↔ (τ ++ r.deeds (.raised e ordinary)).Stranded j := by
    obtain ⟨i, hdeeds⟩ := hdeeds
    rw [hdeeds, hreact, History.stranded_append (by simp), ← hidle j, hpop.idle_abandon e, or_iff_left]
    · exact Iff.rfl
    · rintro ⟨-, rfl, -, hnone⟩
      exact h.told a hmem hw hnone
  -- An error of a step that is let through ends the loop, between two steps or not.
  have hescape (t : Nat) (α : History) (hd : a.drives = true)
      (hreact : r.react (.raised e ordinary) =
        ((({ r with stack := rest } : Runner).abandon a e).1, [], .fail e))
      (hdeeds : r.deeds (.raised e ordinary) = α ++ [.escaped a.run t e]) (hfree : ∀ t e, .escaped j t e ∉ α)
      (hcons : ({ r with stack := rest } : Runner).Consistent base (τ ++ α) (hold a.drives a.run)) :
      (r.react (.raised e ordinary)).1.Idle j ↔ (τ ++ r.deeds (.raised e ordinary)).Stranded j := by
    rw [hreact, hdeeds, ← List.append_assoc, History.stranded_snoc, History.stranded_append hfree, ← hidle j,
      hcons.idle_abandon e, hd]
    simp only [true_and]
    exact Iff.rfl
  -- An error that completes its step is no escape.
  have hfailed (t : Nat) (ht : t < r.tickets.size) (hrun : (r.ticket t).run = a.run) (hd : a.drives = true)
      (hreact : r.react (.raised e ordinary) = ({ r with stack := rest } : Runner).failStep t e) :
      (r.react (.raised e ordinary)).1.Idle j ↔ (τ ++ r.deeds (.raised e ordinary)).Stranded j := by
    rw [stranded_deeds, ← hidle j, hreact]
    · rw [← hrun, hd] at hpop
      exact idle_complete (r := { r with stack := rest }) true hpop ht (some e)
    · exact lets_of_ne_fail _ fun x => by
        rw [hreact]
        exact complete_ne_fail _ t true (some e) x
  obtain ⟨i, drives, wait⟩ := a
  cases wait with
  | seeking => exact absurd rfl ha
  | failed =>
    exact hrefused (.inl rfl) (by simp [Runner.react, hs, Runner.raised, Runner.abandon])
      ⟨i, by simp [deeds, signals, lets, Runner.react, hs, Runner.raised, demands, Runner.abandon]⟩
  | finished =>
    exact hrefused (.inr rfl) (by simp [Runner.react, hs, Runner.raised, Runner.abandon])
      ⟨i, by simp [deeds, signals, lets, Runner.react, hs, Runner.raised, demands, Runner.abandon]⟩
  | settling t =>
    obtain rfl : drives = true := hdrives (by simp)
    obtain ⟨ht, hrun⟩ := hwaits t (.inr rfl)
    cases ordinary with
    | true => exact hfailed t ht hrun rfl (by simp [Runner.react, hs, Runner.raised])
    | false =>
      exact hescape t [] rfl (by simp [Runner.react, hs, Runner.raised, Runner.abandon])
        (by simp [deeds, signals, lets, Runner.react, hs, Runner.raised, demands, Runner.abandon]) (by simp)
        (by simpa using hpop)
  | step t =>
    obtain rfl : drives = true := hdrives (by simp)
    obtain ⟨ht, hrun⟩ := hwaits t (.inl rfl)
    have hticket : ({ r with stack := rest } : Runner).ticket t = r.ticket t := rfl
    cases ordinary with
    | true =>
      by_cases hcalled : (r.ticket t).called
      · exact hescape t [.completed t (some e)] rfl
          (by simp [Runner.react, hs, Runner.raised, Runner.abandon, hticket, hcalled])
          (by simp [deeds, signals, lets, Runner.react, hs, Runner.raised, demands, Runner.abandon, hticket, hcalled])
          (by simp) (hpop.again ht hcalled _)
      · exact hfailed t ht hrun rfl (by simp [Runner.react, hs, Runner.raised, hticket, hcalled])
    | false =>
      exact hescape t [] rfl (by simp [Runner.react, hs, Runner.raised, Runner.abandon])
        (by simp [deeds, signals, lets, Runner.react, hs, Runner.raised, demands, Runner.abandon]) (by simp)
        (by simpa using hpop)

end Consistent

/-- The runs that could go on but are not driven are those that an error has stranded. -/
theorem idle_iff_stranded (h : Reached base r τ) : r.Idle j ↔ τ.Stranded j := by
  induction h generalizing j with
  | @begin r hruns htickets hstack =>
    constructor
    · intro hidle
      have := lt_of_idle hidle
      simp [hruns] at this
    · rintro ⟨α, t, e, β, heq, -⟩
      simp at heq
  | register ware step _ ih => rw [History.stranded_append (by simp), ← ih]
  | equip wares steps _ ih => exact ih
  | @move r τ m hreached hm ih =>
    have hr := consistent_of_reached hreached
    cases hm with
    | start w inputs done => rw [stranded_deeds rfl, ← ih, idle_start]
    | found hs ha =>
      rw [stranded_deeds rfl, ← ih]
      simp only [Runner.react, hs]
      exact idle_proceed _ _
    | next ht he => rw [stranded_deeds rfl, ← ih, hr.idle_next ht]
    | settled future ht he => rw [stranded_deeds rfl, ← ih, hr.idle_settled ht]
    | returned v awaitable hs ha => rw [stranded_deeds rfl, ← ih, hr.idle_returned hs ha]
    | raised ordinary hs ha he => exact hr.idle_raised (fun _ => ih) hs ha _ ordinary
    | watching future hs ha => rw [stranded_deeds rfl, ← ih, hr.idle_watching hs ha]

/-- A run of which nothing is on the stack is driven by nobody. -/
theorem Tables.not_driving_of_quiet (h : r.Tables base τ none) (hquiet : ∀ a ∈ r.stack, a.run ≠ i) :
    (r.run i).driving = false ∧ ¬ r.Seeks i := by
  have hzero : r.drivers i = 0 := by
    rw [drivers, List.countP_eq_zero]
    intro a ha
    simp [hquiet a ha]
  refine ⟨?_, h.not_seeks hzero⟩
  have hdrivers := h.drivers_eq i
  rw [hzero, if_neg (by simp)] at hdrivers
  by_contra hdriving
  rw [Bool.not_eq_false] at hdriving
  rw [if_pos hdriving] at hdrivers
  omega

end Runner

/-- When nothing of a run is left to be done and its steps have all ended, its callback has been called exactly once,
unless an error that was let through came between two steps or took the place of the last completion. -/
theorem reported_once_iff {w : Nat} {inputs : List Value} {done : Value} (h : Reached base r τ)
    (hs : .started i w inputs done ∈ τ) (hquiet : ∀ a ∈ r.stack, a.run ≠ i) (hended : τ.Ended i) :
    (τ.reports i).length = 1 ↔ ¬ τ.Stranded i ∧ ¬ τ.Deserted i := by
  have hr : r.Consistent base τ none := Runner.consistent_of_reached h
  have hi : i < r.runs.size := ((hr.started i w inputs done).mp hs).1
  obtain ⟨hdriving, hseeks⟩ := hr.toTables.not_driving_of_quiet hquiet
  cases hr.phase i hi with
  | pending earlier t k unreported idle settled last cleared hopen =>
    -- The token is with the last step, which has ended without completing.
    have ht : t ∈ τ.tickets i := by
      rw [History.tickets, last]
      simp
    have hdeserted : τ.Deserted i := by
      rcases hended t ht with hcompleted | hescaped
      · rw [hopen] at hcompleted
        cases hcompleted
      · exact ⟨t, ht, hopen, hescaped⟩
    simp [unreported, hdeserted]
  | going unreported cleared token =>
    have hstranded : τ.Stranded i := (Runner.idle_iff_stranded h).mp ⟨token.mpr hseeks, hdriving⟩
    simp [unreported, hstranded]
  | ended report reported idle settled completed =>
    have hnot : ¬ τ.Stranded i := by
      rw [← Runner.idle_iff_stranded h]
      rintro ⟨hready, -⟩
      rw [idle] at hready
      cases hready
    have hall : ¬ τ.Deserted i := by
      rintro ⟨t, ht, hnone, -⟩
      have := completed t ht
      rw [hnone] at this
      cases this
    simp [reported, hnot, hall]

/-- Two steps over one input: the first takes the input alone, the second a continuation too. -/
def plainThenContinued : Runner where
  wares := #[.new .null (.list 0) none]
  steps := #[⟨.function 0, .str "first", some 1, some 1, false, []⟩, ⟨.function 1, .str "second", some 2, some 2, false, []⟩]
  runs := #[]
  tickets := #[]
  stack := []

/-- The first step returns an awaitable, which settles without an error; the second returns without having called
its continuation, and calls it with an error later. -/
def failsLate : List Move :=
  [.start 0 [.int 1] (.function 2), .found (some 0), .returned (.coroutine 0) true, .watching 0, .settled 0 0 none,
    .found (some 1), .returned .null false, .next 1 (some (.fault 0)), .returned .null false]

/-- The first step returns an awaitable, which settles without an error; the second calls its continuation and
raises an error. -/
def raisesAfterNext : List Move :=
  [.start 0 [.int 1] (.function 2), .found (some 0), .returned (.coroutine 0) true, .watching 0, .settled 0 0 none,
    .found (some 1), .next 1 none, .raised (.fault 0) true]

/-- A run whose last step fails late is reported once. -/
theorem reported_once_failsLate :
    let p := plainThenContinued.play [] failsLate
    (p.2.reports 0).length = 1 ↔ ¬ p.2.Stranded 0 ∧ ¬ p.2.Deserted 0 := by
  have hended : (plainThenContinued.play [] failsLate).2.Ended 0 := by
    have : ∀ t ∈ (plainThenContinued.play [] failsLate).2.tickets 0,
        ((plainThenContinued.play [] failsLate).2.firstCompletion t).isSome := by decide +kernel
    exact fun t ht => .inl (this t ht)
  exact reported_once_iff (w := 0) (h := (Reached.begin rfl rfl rfl : Reached (fun _ => [0, 1]) plainThenContinued []).play (by decide +kernel))
    (by decide +kernel : Deed.started 0 0 [.int 1] (.function 2) ∈ (plainThenContinued.play [] failsLate).2) (by decide +kernel) hended

/-- Nothing is left to be done of a run and all its steps have completed, but its callback has not been called: the
last step has raised an error after it had called its continuation. -/
theorem unreported_raisesAfterNext :
    let p := plainThenContinued.play [] raisesAfterNext
    Reached (fun _ => [0, 1]) p.1 p.2 ∧ .started 0 0 [.int 1] (.function 2) ∈ p.2 ∧ p.1.stack = [] ∧
      p.2.Ended 0 ∧ p.2.reports 0 = [] := by
  have hended : ∀ t ∈ (plainThenContinued.play [] raisesAfterNext).2.tickets 0,
      ((plainThenContinued.play [] raisesAfterNext).2.firstCompletion t).isSome := by decide +kernel
  refine ⟨?_, by decide +kernel, by decide +kernel, fun t ht => .inl (hended t ht), by decide +kernel⟩
  exact (Reached.begin rfl rfl rfl).play (by decide +kernel)

end Treeworks
