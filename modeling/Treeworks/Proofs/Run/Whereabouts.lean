import Treeworks.Proofs.Run.Scene

/-! Where a run without a callback of its own stands: not begun, on the stack, telling of an error, off the stack, or
ended by an error. Moves that are not about the run leave it there. -/
namespace Treeworks
open Runner
variable {base : Nat → List Nat} {r : Runner} {τ υ : History} {m : Move} {main i t u : Nat} {e : Value} {s : Scene} {x : Seat}

namespace History

/-- A step of a run fails: the first completion of it is an error. -/
def Fails (τ : History) (i t : Nat) (e : Value) : Prop := t ∈ τ.tickets i ∧ τ.firstCompletion t = some (some e)

/-- No step of a run has failed. -/
def Sound (τ : History) (i : Nat) : Prop := ∀ t e, ¬τ.Fails i t e

/-- The last step of a run has failed, the others have not, and its callback has been called. -/
structure Fallen (τ : History) (i t : Nat) (e : Value) : Prop where
  failed : τ.firstCompletion t = some (some e)
  last : ∃ earlier k, τ.invocations i = earlier ++ [(t, k)] ∧ ∀ x ∈ earlier, τ.firstCompletion x.1 = some none
  reported : τ.reports i ≠ []

/-- What says nothing new about the steps of a run lets it be sound. -/
theorem Sound.append (h : τ.Sound i) (hinv : υ.invocations i = [])
    (hcomp : ∀ t ∈ τ.tickets i, ∀ e, (τ ++ υ).firstCompletion t = some (some e) → τ.firstCompletion t = some (some e)) :
    (τ ++ υ).Sound i := by
  rintro t e ⟨hmem, he⟩
  have htickets : (τ ++ υ).tickets i = τ.tickets i := by rw [tickets, invocations_append, hinv, List.append_nil, tickets]
  rw [htickets] at hmem
  exact h t e ⟨hmem, hcomp t hmem e he⟩

theorem Fallen.append (h : τ.Fallen i t e) (hinv : υ.invocations i = []) : (τ ++ υ).Fallen i t e where
  failed := firstCompletion_append_of_some τ υ t h.failed
  last := by
    obtain ⟨earlier, k, hlast, hcleared⟩ := h.last
    refine ⟨earlier, k, by rw [invocations_append, hinv, List.append_nil, hlast], ?_⟩
    intro y hy
    exact firstCompletion_append_of_some τ υ _ (hcleared y hy)
  reported := by
    rw [reports_append]
    exact List.append_ne_nil_of_left_ne_nil h.reported _

/-- Only the last step of a run has failed. -/
theorem Fallen.unique (h : τ.Fallen i t e) {e' : Value} (hfails : τ.Fails i u e') : u = t ∧ e' = e := by
  obtain ⟨earlier, k, hlast, hcleared⟩ := h.last
  obtain ⟨hmem, hfailed⟩ := hfails
  rw [tickets, hlast, List.map_append, List.mem_append] at hmem
  rcases hmem with hmem | hmem
  · obtain ⟨y, hy, rfl⟩ := List.mem_map.mp hmem
    rw [hcleared y hy] at hfailed
    cases hfailed
  · obtain rfl : u = t := by simpa using hmem
    rw [h.failed] at hfailed
    cases hfailed
    exact ⟨rfl, rfl⟩

theorem Fallen.fails (h : τ.Fallen i t e) : τ.Fails i t e := by
  obtain ⟨earlier, k, hlast, -⟩ := h.last
  exact ⟨by rw [tickets, hlast]; simp, h.failed⟩

theorem Fallen.getLast (h : τ.Fallen i t e) : (τ.tickets i).getLast? = some t := by
  obtain ⟨earlier, k, hlast, -⟩ := h.last
  rw [tickets, hlast]
  simp

/-- A step that has not completed fails. -/
theorem Open.fail {n : Nat} (h : τ.Open i t n) (e : Value) (done : Value) :
    (τ ++ [Deed.completed t (some e), .reported i done [e]]).Fallen i t e := by
  obtain ⟨earlier, k, hlast, -, hcleared⟩ := h.last
  have hnone : History.invocations [.completed t (some e), .reported i done [e]] i = [] := rfl
  refine ⟨?_, ⟨earlier, k, by rw [invocations_append, hnone, List.append_nil, hlast], ?_⟩, ?_⟩
  · rw [firstCompletion_append, h.uncompleted]
    simp [firstCompletion]
  · intro y hy
    exact firstCompletion_append_of_some τ _ _ (hcleared y hy)
  · rw [reports_append]
    exact List.append_ne_nil_of_right_ne_nil _ (by simp [reports])

end History

namespace Runner

/-- A directive with which a run goes on by itself or leaves. -/
def carries : Directive → Bool
  | .seek .. | .leave => true
  | .invoke .. | .await _ | .call .. | .fail _ => false

theorem carries_drive (r : Runner) (i : Nat) : carries (r.drive i).2 = true := by
  unfold Runner.drive
  dsimp only
  split <;> rfl

theorem leave_of_idle (h : (r.run i).ready = false) : (r.drive i).2 = .leave := by
  simp [Runner.drive, h]

/-- A run goes on or leaves when its callback has returned. -/
theorem carries_returned_told {a : Activation} {rest : List Activation} {v : Value} {awaitable : Bool}
    (hs : r.stack = a :: rest) (ha : a.wait = .failed ∨ a.wait = .finished) :
    carries (r.react (.returned v awaitable)).2.2 = true := by
  obtain ⟨i, drives, wait⟩ := a
  simp only [Runner.react, hs, Runner.returned]
  rcases ha with rfl | rfl
  · cases drives with
    | true => exact carries_drive _ i
    | false => rfl
  · rfl

theorem carries_of_quiet {d : Directive} (hd : quiet d = true) (hawait : ∀ v, d ≠ .await v) : carries d = true := by
  cases d with
  | seek | leave => rfl
  | await v => exact absurd rfl (hawait v)
  | invoke | call | fail => cases hd

namespace Completes

/-- A step that was waited for completes when its awaitable ends. -/
theorem concluded {drives : Bool} {rest : List Activation} (hs : r.stack = ⟨i, drives, .settling t⟩ :: rest) (v : Value)
    (awaitable : Bool) : r.Completes (.returned v awaitable) t (errorOf v) :=
  ⟨by simp [Runner.signals, hs], { r with stack := rest }, true, rfl, rfl,
    by simp [Runner.react, hs, Runner.returned, errorOf], by simp [Runner.react, hs, Runner.returned, errorOf]⟩

theorem aborted {drives : Bool} {rest : List Activation} (hs : r.stack = ⟨i, drives, .settling t⟩ :: rest) (x : Value) :
    r.Completes (.raised x true) t (some x) :=
  ⟨by simp [Runner.signals, hs], { r with stack := rest }, true, rfl, rfl,
    by simp [Runner.react, hs, Runner.raised, Runner.failStep], by simp [Runner.react, hs, Runner.raised, Runner.failStep]⟩

/-- A run goes on by itself when its step has completed without an error. -/
theorem carries (h : r.Completes m t none) : carries (r.react m).2.2 = true := by
  obtain ⟨s, drives, -, -, -, hdirective⟩ := h.react
  refine carries_of_quiet h.clears.1 ?_
  rw [hdirective]
  exact complete_ne_await s t drives none

end Completes

/-- A further signal from outside ends at once. -/
theorem leave_of_called (hm : (∃ x, m = .next t x) ∨ ∃ future x, m = .settled t future x)
    (hcalled : (r.ticket t).called = true) : (r.react m).2.2 = .leave ∧ ∃ x, r.deeds m = [.completed t x] := by
  rcases hm with ⟨x, rfl⟩ | ⟨future, x, rfl⟩
  · refine ⟨?_, x, ((Completes.next r t x).again hcalled).2⟩
    simp [Runner.react, Runner.complete, hcalled, Runner.resume]
  · refine ⟨?_, x, ((Completes.settled r t future x).again hcalled).2⟩
    have hticket (f : Ware → Ware) (w : Nat) : (r.updateWare w f).ticket t = r.ticket t := rfl
    cases x <;> simp [Runner.react, Runner.complete, hticket, hcalled, Runner.resume]

/-- A continuation that is called while its run is driven only leaves word. -/
theorem leave_of_driving (hi : (r.ticket t).run < r.runs.size) (hcalled : (r.ticket t).called = false)
    (hdriving : (r.run (r.ticket t).run).driving = true) :
    (r.react (.next t none)).2.2 = .leave ∧ r.deeds (.next t none) = [.completed t none] := by
  refine ⟨?_, (Completes.next r t none).clears.2⟩
  have hrun := run_updateRun_self (r.mark t) (r.ticket t).run (fun run => { run with ready := true }) hi
  have hcomplete : r.complete t false none = (let p := (r.mark t).advance (r.ticket t).run false none; (p.1, [], p.2)) := by
    simp only [Runner.complete, hcalled, Bool.false_eq_true, if_false]
    rfl
  simp only [Runner.react, hcomplete, Runner.advance, Bool.false_eq_true, if_false]
  rw [if_pos]
  rw [hrun]
  exact hdriving

end Runner

namespace Scene

/-- Whom a run belongs to: its caller until it has returned, the loop after that. -/
def owner (main : Nat) (signs : List Sign) : Origin := if .left main ∈ signs then .loop else .caller main

/-- What is known of what a run waits for, as long as none of its steps has failed. -/
def Waits (s : Scene) (x : Seat) : Prop :=
  match x.activation.wait with
  | .seeking => True
  | .step t => (s.history.firstCompletion t).isSome → (s.runner.ticket t).given = true
  | .settling t => s.history.firstCompletion t = none
  | .failed | .finished => ∃ inputs, x.asked = .call (.hook .bail) (.null :: inputs)

/-- A run is on the stack, and none of its steps has failed. What is still watched for it has completed. -/
structure Inside (main : Nat) (s : Scene) (x : Seat) : Prop where
  begun : main < s.runner.runs.size
  alone : s.seatsOf main = [x]
  silent : s.surfacings main = []
  origin : x.origin = owner main s.signs
  sound : s.history.Sound main
  waits : s.Waits x
  kept : ∀ p ∈ s.futures, p.1 ∈ s.history.tickets main → (s.history.firstCompletion p.1).isSome

/-- Where a run without a callback of its own stands: it has not begun, it is on the stack, its callback is being told
of an error, it is not on the stack, or an error has come out of it. -/
inductive Stand (main : Nat) (s : Scene) : Prop
  | fresh (unbegun : s.runner.runs.size ≤ main) (here : .left main ∉ s.signs) (silent : s.surfacings main = [])
  | inside (x : Seat) (inside : s.Inside main x)
  | failing (x : Seat) (t : Nat) (e : Value) (begun : main < s.runner.runs.size) (alone : s.seatsOf main = [x])
      (silent : s.surfacings main = []) (told : x.activation.wait = .failed ∨ x.activation.wait = .finished)
      (asked : x.asked = .call (.hook .bail) [e]) (fault : e.isFault = true) (fallen : s.history.Fallen main t e)
      (origin : x.origin = owner main (s.before (.completed t (some e))))
  | away (begun : main < s.runner.runs.size) (alone : s.seatsOf main = []) (silent : s.surfacings main = [])
      (left : .left main ∈ s.signs) (sound : s.history.Sound main)
  | broken (t : Nat) (e : Value) (begun : main < s.runner.runs.size) (alone : s.seatsOf main = [])
      (fallen : s.history.Fallen main t e)
      (surfaced : s.surfacings main = [(owner main (s.before (.completed t (some e))), e)])

/-- A scene that another is followed by while a run stays where it stands. -/
structure Passes (main : Nat) (s s' : Scene) : Prop where
  seats : s'.seatsOf main = s.seatsOf main
  signs : ∃ l, s'.signs = s.signs ++ l ∧ .left main ∉ l ∧ l.filterMap (Sign.surfacing? main) = [] ∧
    History.invocations (l.filterMap Sign.deed?) main = []
  completions : ∀ t ∈ s.history.tickets main, s'.history.firstCompletion t = s.history.firstCompletion t
  futures : ∀ p ∈ s'.futures, p ∈ s.futures ∨ p.1 ∉ s.history.tickets main
  given : ∀ t < s.runner.tickets.size, (s'.runner.ticket t).given = (s.runner.ticket t).given
  unbegun : s.runner.runs.size ≤ main → s'.runner.runs.size ≤ main
  begun : main < s.runner.runs.size → main < s'.runner.runs.size

theorem tickets_append (hinv : υ.invocations i = []) : (τ ++ υ).tickets i = τ.tickets i := by
  rw [History.tickets, History.invocations_append, hinv, List.append_nil, History.tickets]

namespace Passes
variable {s' : Scene}

theorem history (h : Passes main s s') : ∃ υ, s'.history = s.history ++ υ ∧ υ.invocations main = [] := by
  obtain ⟨l, hsigns, -, -, hinv⟩ := h.signs
  exact ⟨_, by rw [Scene.history, hsigns, List.filterMap_append, Scene.history], hinv⟩

theorem left (h : Passes main s s') : .left main ∈ s'.signs ↔ .left main ∈ s.signs := by
  obtain ⟨l, hsigns, hleft, -⟩ := h.signs
  rw [hsigns, List.mem_append, or_iff_left hleft]

theorem surfacings (h : Passes main s s') : s'.surfacings main = s.surfacings main := by
  obtain ⟨l, hsigns, -, hsurfacings, -⟩ := h.signs
  rw [Scene.surfacings, hsigns, List.filterMap_append, hsurfacings, List.append_nil, Scene.surfacings]

theorem tickets (h : Passes main s s') : s'.history.tickets main = s.history.tickets main := by
  obtain ⟨υ, hhistory, hinv⟩ := h.history
  rw [hhistory, tickets_append hinv]

theorem sound (h : Passes main s s') (hsound : s.history.Sound main) : s'.history.Sound main := by
  rintro t e ⟨hmem, he⟩
  rw [h.tickets] at hmem
  rw [h.completions t hmem] at he
  exact hsound t e ⟨hmem, he⟩

theorem fallen (h : Passes main s s') (hfallen : s.history.Fallen main t e) : s'.history.Fallen main t e := by
  obtain ⟨υ, hhistory, hinv⟩ := h.history
  rw [hhistory]
  exact hfallen.append hinv

theorem owner (h : Passes main s s') : owner main s'.signs = owner main s.signs := by
  simp only [Scene.owner, h.left]

theorem before (h : Passes main s s') {d : Deed} (hd : d ∈ s.history) : s'.before d = s.before d := by
  obtain ⟨l, hsigns, -⟩ := h.signs
  rw [Scene.before, hsigns]
  exact before_append (mem_history.mp hd) l

end Passes

/-- What a run on the stack waits for is a step of its own. -/
theorem Coherent.ticket_of_seat (h : s.Coherent base) (hx : x ∈ s.seatsOf main)
    (ht : x.activation.wait = .step t ∨ x.activation.wait = .settling t) :
    t < s.runner.tickets.size ∧ (s.runner.ticket t).run = main ∧ t ∈ s.history.tickets main := by
  obtain ⟨hmem, hrun⟩ := List.mem_filter.mp hx
  have hrun : x.activation.run = main := by simpa using hrun
  have hstack : x.activation ∈ s.runner.stack := by
    rw [← h.seats]
    exact List.mem_map_of_mem hmem
  have hconsistent := consistent_of_reached h.reached
  obtain ⟨hlt, hticket⟩ := hconsistent.waits x.activation hstack t ht
  rw [hrun] at hticket
  refine ⟨hlt, hticket, ?_⟩
  have hinvoked := (hconsistent.ticket t hlt).2.1
  rw [hticket] at hinvoked
  exact List.mem_map_of_mem hinvoked

/-- A failed step is known from what has happened. -/
theorem mem_of_fallen (h : τ.Fallen main t e) : .completed t (some e) ∈ τ := by
  obtain ⟨d, hd, hcompletion⟩ := List.exists_of_findSome?_eq_some h.failed
  cases d with
  | completed v y =>
    simp only [History.completion?] at hcompletion
    split at hcompletion
    · next hv =>
      obtain rfl := hv
      obtain rfl := Option.some.inj hcompletion
      exact hd
    · cases hcompletion
  | registered | started | invoked | escaped | reported | refused => cases hcompletion

theorem Passes.inside {s' : Scene} (h : s.Coherent base) (hp : Passes main s s') (hx : s.Inside main x) :
    s'.Inside main x where
  begun := hp.begun hx.begun
  alone := hp.seats.trans hx.alone
  silent := hp.surfacings.trans hx.silent
  origin := by rw [hp.owner, hx.origin]
  sound := hp.sound hx.sound
  waits := by
    have hmem : x ∈ s.seatsOf main := by rw [hx.alone]; exact List.mem_singleton_self x
    have hwaits := hx.waits
    unfold Waits at hwaits ⊢
    cases hwait : x.activation.wait with
    | seeking => trivial
    | failed | finished =>
      rw [hwait] at hwaits
      exact hwaits
    | step t =>
      obtain ⟨hlt, -, hticket⟩ := h.ticket_of_seat hmem (.inl hwait)
      rw [hwait] at hwaits
      change (s'.history.firstCompletion t).isSome → (s'.runner.ticket t).given = true
      rw [hp.given t hlt, hp.completions t hticket]
      exact hwaits
    | settling t =>
      obtain ⟨-, -, hticket⟩ := h.ticket_of_seat hmem (.inr hwait)
      rw [hwait] at hwaits
      change s'.history.firstCompletion t = none
      rw [hp.completions t hticket]
      exact hwaits
  kept := by
    intro p hmem hticket
    rw [hp.tickets] at hticket
    rw [hp.completions p.1 hticket]
    exact hx.kept p ((hp.futures p hmem).resolve_right (not_not_intro hticket)) hticket

theorem Passes.stand {s' : Scene} (h : s.Coherent base) (hp : Passes main s s') (hs : Stand main s) : Stand main s' := by
  cases hs with
  | fresh unbegun here silent =>
    exact .fresh (hp.unbegun unbegun) (by rw [hp.left]; exact here) (hp.surfacings.trans silent)
  | inside x hx => exact .inside x (hp.inside h hx)
  | failing x t e begun alone silent told asked fault fallen origin =>
    exact .failing x t e (hp.begun begun) (hp.seats.trans alone) (hp.surfacings.trans silent) told asked fault
      (hp.fallen fallen) (by rw [hp.before (mem_of_fallen fallen), origin])
  | away begun alone silent left sound =>
    exact .away (hp.begun begun) (hp.seats.trans alone) (hp.surfacings.trans silent) (hp.left.mpr left) (hp.sound sound)
  | broken t e begun alone fallen surfaced =>
    exact .broken t e (hp.begun begun) (hp.seats.trans alone) (hp.fallen fallen)
      (by rw [hp.before (mem_of_fallen fallen), hp.surfacings, surfaced])

/-! ### Moves from which a run stays where it stands -/

/-- A move is passed by that ends nothing of a run, invokes none of its steps and completes none. -/
theorem passes_make (hseats : (s.make m).seatsOf main = s.seatsOf main)
    (hending : s.ending m = [] ∨ ∃ i, i ≠ main ∧ (s.ending m = [.left i] ∨ ∃ o e, s.ending m = [.surfaced i o e]))
    (hinv : (s.runner.deeds m).invocations main = [])
    (hcompletions : ∀ t ∈ s.history.tickets main,
      (s.history ++ s.runner.deeds m).firstCompletion t = s.history.firstCompletion t)
    (hfutures : ∀ p ∈ s.watched m, p ∈ s.futures ∨ p.1 ∉ s.history.tickets main)
    (hruns : s.runner.runs.size ≤ main → (s.runner.react m).1.runs.size ≤ main) : Passes main s (s.make m) where
  seats := hseats
  signs := by
    have hshown : .left main ∉ s.ending m ∧ (s.ending m).filterMap (Sign.surfacing? main) = [] := by
      rcases hending with hnil | ⟨i, hi, hleft | ⟨o, e, hsurfaced⟩⟩
      · simp [hnil]
      · simpa [hleft] using Ne.symm hi
      · simp [hsurfaced, hi]
    refine ⟨_, rfl, ?_, ?_, ?_⟩
    · simpa using hshown.1
    · rw [List.filterMap_append, surfacing?_map, hshown.2, List.nil_append]
    · rw [List.filterMap_append, deed?_map, history_ending, List.append_nil, hinv]
  completions := by
    intro t ht
    rw [history_make, hcompletions t ht]
  futures := hfutures
  given := fun t ht => given_react s.runner m ht
  unbegun := hruns
  begun := fun hlt => Nat.lt_of_lt_of_le hlt (sizes_react s.runner m).1

theorem Coherent.passes_of_ne (h : s.Coherent base) (hne : s.runner.subject m ≠ main) : Passes main s (s.make m) := by
  refine passes_make (h.seatsOf_of_ne hne) ?_ (invocations_of_ne h.goes hne) ?_ ?_ ?_
  · unfold ending
    split
    case h_1 i _ ho => exact .inr ⟨i, by rw [← h.subject_of_caller ho]; exact hne, .inl rfl⟩
    case h_2 => exact .inr ⟨_, hne, .inr ⟨_, _, rfl⟩⟩
    case h_3 => exact .inl rfl
  · intro t ht
    rw [History.firstCompletion_append, firstCompletion_of_ne h.reached hne ht, Option.or_none]
  · intro p hp
    cases m with
    | start | found | next | returned | raised => exact .inl hp
    | settled t future x => exact .inl (List.mem_of_mem_erase hp)
    | watching future =>
      simp only [watched] at hp
      split at hp
      case h_1 hs =>
        rw [List.mem_append, List.mem_singleton] at hp
        refine hp.imp_right ?_
        rintro rfl hmem
        have hrun := (Bench.goes_of_reached h.reached (by rw [hs]; exact List.mem_cons_self)).2 _ (.inr rfl)
        rw [((consistent_of_reached h.reached).ticket_of_mem hmem).2] at hrun
        exact hne (by simp [subject, hs, hrun])
      case h_2 => exact .inl hp
  · intro hle
    cases m with
    | start w inputs done =>
      have hsize := runs_size_start s.runner w inputs done
      have hsubject : s.runner.runs.size ≠ main := hne
      omega
    | found | next | settled | returned | raised | watching =>
      rw [(Evolves.react s.runner _ rfl).runs]
      exact hle

theorem Coherent.passes_of_called (h : s.Coherent base)
    (hm : (∃ y, m = .next t y) ∨ ∃ future y, m = .settled t future y) (ht : t < s.runner.tickets.size)
    (hcalled : (s.runner.ticket t).called = true) : Passes main s (s.make m) := by
  obtain ⟨hleave, y, hdeeds⟩ := leave_of_called hm hcalled
  have hsome : (s.history.firstCompletion t).isSome := by
    rw [← ((consistent_of_reached h.reached).ticket t ht).2.2, hcalled]
  have hseat : s.seat m = none := by rw [seat, if_pos (by rw [hleave]; rfl)]
  have hbegins : m.begins = false := by rcases hm with ⟨_, rfl⟩ | ⟨_, _, rfl⟩ <;> rfl
  refine passes_make ?_ (.inl ?_) ?_ ?_ ?_ ?_
  · rcases hm with ⟨_, rfl⟩ | ⟨_, _, rfl⟩
    · simp [seatsOf, make, hseat, Scene.under]
    · simp [seatsOf, make, hseat, Scene.under]
  · rcases hm with ⟨_, rfl⟩ | ⟨_, _, rfl⟩
    · simp [ending, hleave, originOf]
    · simp [ending, hleave, originOf]
  · rw [hdeeds]
    rfl
  · intro u hu
    rw [hdeeds, History.firstCompletion_append]
    by_cases hut : u = t
    · subst hut
      obtain ⟨z, hz⟩ := Option.isSome_iff_exists.mp hsome
      rw [hz, Option.some_or]
    · simp [Ne.symm hut]
  · intro p hp
    rcases hm with ⟨_, rfl⟩ | ⟨_, _, rfl⟩
    · exact .inl hp
    · exact .inl (List.mem_of_mem_erase hp)
  · rw [(Evolves.react s.runner m hbegins).runs]
    exact id

/-! ### Moves with which a run goes on -/

/-- A move about a run on whose behalf nothing is left on the stack when the move is taken off it. -/
structure Moves (base : Nat → List Nat) (main : Nat) (s : Scene) (m : Move) : Prop where
  coherent : s.Coherent base
  begun : main < (s.make m).runner.runs.size
  subject : s.runner.subject m = main
  under : (s.under m).filter (·.activation.run = main) = []
  origin : s.originOf m = owner main s.signs
  silent : s.surfacings main = []

namespace Moves

/-- The seat of a run that waits for something. -/
theorem seats (h : Moves base main s m) :
    ((s.runner.react m).2.2.ends = true ∧ (s.make m).seatsOf main = []) ∨
      ∃ a, (s.make m).seatsOf main = [⟨a, owner main s.signs, (s.runner.react m).2.2⟩] ∧
        (s.runner.react m).1.stack = a :: s.runner.below m := by
  rcases h.coherent.seat_cases m with ⟨hends, hseat, -⟩ | ⟨a, hseat, ha, hstack⟩
  · exact .inl ⟨hends, by rw [seatsOf, make, hseat, Option.toList_none, List.nil_append, h.under]⟩
  · refine .inr ⟨a, ?_, hstack⟩
    rw [seatsOf, make, hseat, Option.toList_some, List.filter_append, h.under, h.origin, List.append_nil]
    simp [ha, h.subject]

/-- What a move waits for has not ended it. -/
theorem waiting (h : Moves base main s m) (hends : (s.runner.react m).2.2.ends = false) :
    ∃ a, (s.make m).seatsOf main = [⟨a, owner main s.signs, (s.runner.react m).2.2⟩] ∧
      (s.runner.react m).1.stack = a :: s.runner.below m ∧ s.ending m = [] := by
  rcases h.seats with ⟨hends', -⟩ | ⟨a, hseats, hstack⟩
  · rw [hends] at hends'
    cases hends'
  · refine ⟨a, hseats, hstack, ?_⟩
    unfold ending
    split
    case h_1 hleave _ => simp [hleave, Directive.ends] at hends
    case h_2 hfail => simp [hfail, Directive.ends] at hends
    case h_3 => rfl

theorem owner_waiting (hending : s.ending m = []) : owner main (s.make m).signs = owner main s.signs := by
  simp only [owner, left_make, hending, List.not_mem_nil, or_false]

/-- A run waits for something else. -/
theorem stay (h : Moves base main s m) (hends : (s.runner.react m).2.2.ends = false)
    (sound : (s.make m).history.Sound main)
    (waits : ∀ a, (s.runner.react m).1.stack = a :: s.runner.below m →
      (s.make m).Waits ⟨a, owner main s.signs, (s.runner.react m).2.2⟩)
    (kept : ∀ p ∈ (s.make m).futures, p.1 ∈ (s.make m).history.tickets main →
      ((s.make m).history.firstCompletion p.1).isSome) : Stand main (s.make m) := by
  obtain ⟨a, hseats, hstack, hending⟩ := h.waiting hends
  exact .inside _ ⟨h.begun, hseats, by rw [surfacings_make, h.silent, hending]; rfl, (owner_waiting hending).symm, sound,
    waits a hstack, kept⟩

/-- A run goes on to its next step, or leaves. -/
theorem carry (h : Moves base main s m) (hd : carries (s.runner.react m).2.2 = true)
    (sound : (s.make m).history.Sound main)
    (kept : (s.runner.react m).2.2 ≠ .leave → ∀ p ∈ (s.make m).futures, p.1 ∈ (s.make m).history.tickets main →
      ((s.make m).history.firstCompletion p.1).isSome) : Stand main (s.make m) := by
  cases hdirective : (s.runner.react m).2.2 with
  | invoke | await | call | fail =>
    rw [hdirective] at hd
    cases hd
  | seek steps index =>
    refine h.stay (by rw [hdirective]; rfl) sound ?_ (kept (by rw [hdirective]; nofun))
    intro a hstack
    have hputs := puts_react s.runner m
    rw [hdirective, hstack] at hputs
    cases hputs
    exact trivial
  | leave =>
    have hends : (s.runner.react m).2.2.ends = true := by rw [hdirective]; rfl
    have hseats : (s.make m).seatsOf main = [] := by
      rcases h.seats with ⟨-, hseats⟩ | ⟨a, -, hstack⟩
      · exact hseats
      · have hputs := puts_react s.runner m
        rw [hdirective, hstack] at hputs
        generalize s.runner.below m = l at hputs
        cases hputs
    by_cases hleft : .left main ∈ s.signs
    · have hending : s.ending m = [] := by simp [ending, hdirective, h.origin, owner, hleft]
      exact .away h.begun hseats (by rw [surfacings_make, h.silent, hending]; rfl) ((left_make s m main).mpr (.inl hleft)) sound
    · have hending : s.ending m = [.left main] := by simp [ending, hdirective, h.origin, owner, hleft]
      refine .away h.begun hseats (by rw [surfacings_make, h.silent, hending]; rfl) ((left_make s m main).mpr (.inr ?_)) sound
      rw [hending]
      exact List.mem_singleton_self _

/-- What shows with a deed that is new had not shown before. -/
theorem before_of_new {d : Deed} {l : History} (hnew : d ∉ s.history) (hdeeds : s.runner.deeds m = d :: l) :
    (s.make m).before d = s.signs := by
  have hall : s.signs.takeWhile (· ≠ .deed d) = s.signs := by
    refine List.takeWhile_eq_self_iff.mpr ?_
    intro y hy
    have hne : y ≠ .deed d := by
      rintro rfl
      exact hnew (mem_history.mpr hy)
    simpa using hne
  rw [before, make, List.takeWhile_append, if_pos (by rw [hall]), hdeeds]
  simp

theorem not_mem_of_uncompleted (h : τ.firstCompletion t = none) (y : Option Value) : .completed t y ∉ τ := by
  intro hmem
  have hnone := List.findSome?_eq_none_iff.mp h _ hmem
  simp at hnone

/-- The step that a run is at fails, and its callback is called. -/
theorem fall (h : Moves base main s m) (hc : s.runner.Completes m t (some e)) {n : Nat} (hopen : s.history.Open main t n)
    (hdone : (s.runner.run main).done = .hook .bail) (hfault : e.isFault = true) : Stand main (s.make m) := by
  obtain ⟨-, hrun, hcalled⟩ := (consistent_of_reached h.coherent.reached).ticket_of_open hopen
  obtain ⟨hdirective, hdeeds⟩ := hc.fails hcalled
  rw [hrun, hdone] at hdirective hdeeds
  have hends : (s.runner.react m).2.2.ends = false := by rw [hdirective]; rfl
  obtain ⟨a, hseats, hstack, hending⟩ := h.waiting hends
  have hputs := puts_react s.runner m
  rw [hdirective, hstack] at hputs
  have htold : a.wait = .failed ∨ a.wait = .finished := by
    cases hputs with
    | failed => exact .inl rfl
    | finished => exact .inr rfl
  refine .failing _ t e h.begun hseats (by rw [surfacings_make, h.silent, hending]; rfl) htold hdirective hfault ?_ ?_
  · rw [history_make, hdeeds]
    exact hopen.fail e _
  · rw [before_of_new (not_mem_of_uncompleted hopen.uncompleted _) hdeeds]

end Moves

end Scene
end Treeworks
