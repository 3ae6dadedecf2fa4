import Treeworks.Proofs.Run.Abreast
import Treeworks.Proofs.Run.Loss

/-! A run whose awaitables are brought to their ends at once, and one whose awaitables are left to a loop, call the
same steps and the same callback in the same order. What the first keeps on the stack while an awaitable goes on, the
second has left, and finds again when the future is settled. -/
namespace Treeworks.Bench
open Runner
variable {base : Nat → List Nat} {r s : Runner} {τ : History} {main i t : Nat} {f : Run → Run}
  {g g' : List Activation} {m m' : Move} {mode : Mode} {b b' d : Bench} {v e : Value} {awaitable ordinary drives : Bool}
  {x : Option Value}

/-- Nothing is on the stack, or only the activation that drives a run and has somebody at work. -/
def Alone (main : Nat) (r : Runner) : Prop := r.stack = [] ∨ ∃ wait, r.stack = [⟨main, true, wait⟩] ∧ r.Works wait

/-- A run that goes on by itself comes to somebody's work, or to its end. -/
theorem alone_attend {dir : Directive} (h : Carries main [] dir b.runner.stack) :
    Alone main (b.attend mode base dir).runner := by
  generalize hs : b.runner.stack = l at h
  cases h with
  | leave => exact .inl hs
  | call => exact .inr ⟨.failed, hs, trivial⟩
  | seek steps k =>
    simp only [attend, make, react, hs]
    cases b.sought base with
    | none => exact .inr ⟨.finished, rfl, trivial⟩
    | some k =>
      refine .inr ⟨.step b.runner.tickets.size, rfl, fun _ => ?_⟩
      simp [proceed, Runner.ticket, push, updateRun]

/-- Two benches are abreast that play the same with nothing beneath. -/
theorem Abreast.of_alone (hb : Reached base b.runner b.history) (hb' : Reached base b'.runner b'.history)
    (hlt : main < b.runner.runs.size) (hw : b.waiting = none) (hw' : b'.waiting = none) (hrest : Rests main id [] b' b)
    (halone : Alone main b.runner) : Abreast base main b b' := by
  refine ⟨hb, hb', hlt, hw, ?_⟩
  rw [hw']
  rcases halone with hs | ⟨wait, hs, hworks⟩
  · exact ⟨b, id, [], [], ⟨rfl, rfl⟩, hrest, .idle hs⟩
  · have hover : b.runner.atop main id [] = ({ b.runner with stack := [] } : Runner).atop main id [⟨main, true, wait⟩] := by
      simp [atop, hs]
    exact ⟨{ b with runner := { b.runner with stack := [] } }, id, _, _, ⟨hover, rfl⟩,
      ⟨hrest.runner.trans hover, hrest.history⟩, .working wait hworks⟩

/-- Two benches are abreast when both have come to the same in a run that goes on by itself. -/
theorem Abreast.of_carries (hrest : Rests main id [] (b'.make m') (b.make m))
    (hdirective : (b'.runner.react m').2.2 = (b.runner.react m).2.2)
    (hcarries : Carries main [] (b.runner.react m).2.2 (b.make m).runner.stack)
    (hp : Paired base main mode b b' m m') (hw' : b'.waiting = none) :
    Abreast base main (b.move .direct base m) (b'.move mode base m') := by
  have hputs := puts_react b.runner m
  have hawait (v : Value) : (b.runner.react m).2.2 ≠ .await v := by
    intro h
    rw [h] at hcarries
    cases hcarries
  have hself : Rests main id [] (b.make m) (b.make m) := ⟨rfl, rfl⟩
  obtain ⟨-, hwaiting, -⟩ := hself.attend .direct base hputs (fun _ _ => .inl rfl) hawait
  obtain ⟨hrest', hwaiting', -⟩ := hrest.attend mode base hputs (fun _ _ => .inl rfl) hawait
  rw [← hdirective] at hwaiting'
  refine .of_alone hp.moved hp.moved' hp.main_lt (hwaiting.trans hp.waiting) (hwaiting'.trans hw') ?_
    (alone_attend hcarries)
  rw [move, move, hdirective]
  exact hrest'

/-- A run is driven exactly if the one activation on the stack drives it. -/
theorem driving_of_reached {wait : Wait} (h : Reached base r τ) (hs : r.stack = [⟨main, drives, wait⟩]) :
    (r.run main).driving = drives := by
  have hdrivers := (consistent_of_reached h).drivers_eq main
  rw [drivers, hs, if_neg (by simp)] at hdrivers
  cases drives with
  | true =>
    by_contra hnot
    simp [hnot] at hdrivers
  | false =>
    by_contra hnot
    simp [hnot] at hdrivers

/-- A loop takes over the awaitable of a step, and the run leaves. -/
theorem move_awaitable (future : Nat → Nat) (hreached : Reached base b.runner b.history)
    (hs : b.runner.stack = [⟨main, true, .step t⟩]) (hgiven : (b.runner.ticket t).given = false)
    (hcalled : (b.runner.ticket t).called = false) (hfault : v.isFault = false) :
    ∃ (w : Nat) (p : List Nat → List Nat), b.move (.queued future) base (.returned v true) =
      { runner := (({ b.runner with stack := [] } : Runner).updateWare w fun ware =>
          { ware with pending := p ware.pending }).updateRun main resting
        history := (b.make (.returned v true)).history
        waiting := some (t, future t) } := by
  have hreact := react_awaitable hs hgiven hfault
  have hmake : (b.make (.returned v true)).runner = ({ b.runner with stack := [] } : Runner).push ⟨main, true, .settling t⟩ := by
    rw [make, hreact]
  have hs' : (b.make (.returned v true)).runner.stack = [⟨main, true, .settling t⟩] := by rw [hmake]; rfl
  have hready : ((b.make (.returned v true)).runner.run main).ready = false := by
    have hr := consistent_of_reached hreached
    obtain ⟨ht, hrun⟩ := hr.waits ⟨main, true, .step t⟩ (by rw [hs]; exact List.mem_singleton_self _) t (.inl rfl)
    have hidle := (hr.last_of_uncalled ht hcalled).2.1
    rw [hrun] at hidle
    rw [hmake]
    exact hidle
  obtain ⟨w, p, hwatch⟩ := react_watching hs' hready (future t)
  have hdeeds : (b.make (.returned v true)).runner.deeds (.watching (future t)) = [] := by
    rw [deeds, hwatch]
    rfl
  refine ⟨w, p, ?_⟩
  rw [move, hreact]
  simp only [attend, hs', attend.settling]
  rw [make, hdeeds, hwatch, hmake, List.append_nil]
  rfl

/-- Without a loop the awaitable of a step goes on in the run; with one the run has left. -/
theorem Abreast.await {future : Nat → Nat} (hrest : Rests main id [] b' b)
    (hp : Paired base main (.queued future) b b' (.returned v true) (.returned v true))
    (hs : b.runner.stack = [⟨main, true, .step t⟩]) (hgiven : (b.runner.ticket t).given = false)
    (hcalled : (b.runner.ticket t).called = false) (hfault : v.isFault = false) :
    Abreast base main (b.move .direct base (.returned v true)) (b'.move (.queued future) base (.returned v true)) := by
  have hs' : b'.runner.stack = [⟨main, true, .step t⟩] := by rw [hrest.stack, hs]; rfl
  have hgiven' : (b'.runner.ticket t).given = false := by rw [hrest.ticket, hgiven]
  have hcalled' : (b'.runner.ticket t).called = false := by rw [hrest.ticket, hcalled]
  have hfirst : b.move .direct base (.returned v true) = b.make (.returned v true) := by
    rw [move, react_awaitable hs hgiven hfault]
    rfl
  obtain ⟨w, p, hsecond⟩ := move_awaitable future hp.reached' hs' hgiven' hcalled' hfault
  refine ⟨hp.moved, hp.moved', hp.main_lt, by rw [hfirst]; exact hp.waiting,
    b'.move (.queued future) base (.returned v true), driven, [⟨main, true, .settling t⟩], [], ?_, ⟨rfl, rfl⟩, ?_⟩
  · rw [hfirst, hsecond]
    refine ⟨?_, ?_⟩
    · -- What the second has changed is that the run is no longer driven.
      have hdriving := driving_of_reached hp.reached' hs'
      have hfixed : (driven ∘ resting) (({ b'.runner with stack := [] } : Runner).run main) =
          ({ b'.runner with stack := [] } : Runner).run main := by
        have hrun : ({ b'.runner with stack := [] } : Runner).run main = b'.runner.run main := rfl
        simp [driven, resting, hrun, ← hdriving]
      have hrunner := congrArg (fun r : Runner => { r with stack := [⟨main, true, .settling t⟩] }) hrest.runner
      rw [make, react_awaitable hs hgiven hfault, Atop.updateRun_over, Atop.updatePending]
      exact hrunner.symm.trans (Atop.of_fixed hfixed).symm
    · exact ((hrest.make (m := .returned v true) ⟨_, [], hs, .inl rfl, fun _ _ => .inl rfl⟩).1.history).symm
  · rw [hsecond]
    refine .apart t (future t) hgiven' hcalled' ?_
    intro a ha
    cases ha

/-- A move that ends an awaitable does what a signal through its ticket does. -/
structure Ends (r s : Runner) (drives : Bool) (m : Move) (t : Nat) (x : Option Value) : Prop where
  signals : r.signals m = [.completed t x]
  runner : (r.react m).1 = (s.complete t drives x).1
  directive : (r.react m).2.2 = (s.complete t drives x).2.2

theorem Ends.eq_advance (h : Ends r s drives m t x) (hcalled : (s.ticket t).called = false) :
    (r.react m).1 = ((s.mark t).advance (s.ticket t).run drives x).1 ∧
      (r.react m).2.2 = ((s.mark t).advance (s.ticket t).run drives x).2 ∧
      r.deeds m = [.completed t x] ++ ((s.mark t).advance (s.ticket t).run drives x).1.demands
        ((s.mark t).advance (s.ticket t).run drives x).2 := by
  have hcomplete : s.complete t drives x = (((s.mark t).advance (s.ticket t).run drives x).1, [],
      ((s.mark t).advance (s.ticket t).run drives x).2) := by
    simp only [Runner.complete, hcalled]
    rfl
  have hrunner := h.runner
  have hdirective := h.directive
  rw [hcomplete] at hrunner hdirective
  refine ⟨hrunner, hdirective, ?_⟩
  rw [Runner.deeds, h.signals, hrunner, hdirective, lets_of_ne_fail m (advance_ne_fail _ _ drives x)]
  rfl

theorem Ends.settled (r : Runner) (t future : Nat) (x : Option Value) :
    Ends r (r.updateWare (r.run (r.ticket t).run).ware fun w => { w with pending := w.pending.erase future }) false
      (.settled t future x) t x := by
  refine ⟨rfl, ?_, ?_⟩
  · cases x <;> rfl
  · cases x <;> rfl

/-- A runner in which the activation that has the awaitable of a run is about to go on, and one that has left it to
its loop. They differ in whether the run is driven. -/
structure Parted (main t : Nat) (r s : Runner) : Prop where
  atop : r.atop main id [] = s.atop main driven []
  lt : main < s.runs.size
  resting : (s.run main).driving = false
  run : (s.ticket t).run = main
  called : (s.ticket t).called = false
  empty : s.stack = []

namespace Parted

theorem ticket (h : Parted main t r s) : r.ticket t = s.ticket t := by
  have htickets := congrArg Runner.tickets h.atop
  exact congrArg (fun l : Array Ticket => l.getD t default) htickets

theorem stack (h : Parted main t r s) : r.stack = [] := by
  have hstack := congrArg Runner.stack h.atop
  simpa [Runner.atop, h.empty] using hstack

theorem done (h : Parted main t r s) : (r.run main).done = (s.run main).done := by
  have hrun := congrArg (fun r : Runner => r.run main) h.atop
  rw [Atop.run (.inl rfl), Atop.run_self h.lt] at hrun
  rw [hrun]
  rfl

end Parted

/-- What two benches have that have parted. -/
theorem parted_of_rests {w : Nat} {p : List Nat → List Nat} (hb : Rests main driven [⟨main, true, .settling t⟩] b d)
    (hb' : Rests main id [] b' d) (hempty : d.runner.stack = []) (hcalled : (d.runner.ticket t).called = false)
    (hreached : Reached base b.runner b.history) (hreached' : Reached base b'.runner b'.history) :
    Parted main t { b.runner with stack := [] }
      (b'.runner.updateWare w fun ware => { ware with pending := p ware.pending }) := by
  have hstack : b.runner.stack = [⟨main, true, .settling t⟩] := by rw [hb.stack, hempty]; rfl
  have hstack' : b'.runner.stack = [] := by rw [hb'.stack, hempty]; rfl
  have hmem : (⟨main, true, .settling t⟩ : Activation) ∈ b.runner.stack := by
    rw [hstack]
    exact List.mem_singleton_self _
  have hquiet : ∀ a ∈ b'.runner.stack, a.run ≠ main := by simp [hstack']
  refine ⟨?_, ?_, ((consistent_of_reached hreached').not_driving_of_quiet hquiet).1, ?_, ?_, hstack'⟩
  · have hself := congrArg (fun r : Runner => r.updateRun main driven) hb'.runner
    simp only [Atop.updateRun_self] at hself
    have hrunner := congrArg (fun r : Runner => { r with stack := [] }) hb.runner
    have hnil : d.runner.atop main driven [] = { d.runner.atop main driven [⟨main, true, .settling t⟩] with stack := [] } := by
      simp [atop, hempty]
    rw [Atop.updatePending]
    exact hrunner.trans (hnil.symm.trans hself.symm)
  · have hlt := (consistent_of_reached hreached).run_lt _ hmem
    rw [runs_updateWare, hb'.runs_size, ← hb.runs_size]
    exact hlt
  · rw [ticket_updateWare, hb'.ticket, ← hb.ticket]
    exact (goes_of_reached hreached hmem).2 t (.inr rfl)
  · rw [ticket_updateWare, hb'.ticket, hcalled]

/-- An awaitable that ends without an error lets the run go on, whether it still has it or has left it to its loop. -/
theorem Abreast.cleared (hb : b'.history = b.history) (hparted : Parted main t r s)
    (hend : Ends b.runner r true m t none) (hend' : Ends b'.runner s false m' t none)
    (hp : Paired base main mode b b' m m') (hw' : b'.waiting = none) :
    Abreast base main (b.move .direct base m) (b'.move mode base m') := by
  obtain ⟨hmade, hdirective, hdeeds⟩ := hend.eq_advance (by rw [hparted.ticket, hparted.called])
  obtain ⟨hmade', hdirective', hdeeds'⟩ := hend'.eq_advance hparted.called
  have hrun : (r.ticket t).run = main := by rw [hparted.ticket, hparted.run]
  rw [hrun] at hmade hdirective hdeeds
  rw [hparted.run] at hmade' hdirective' hdeeds'
  obtain ⟨hsame, hsame'⟩ := advance_driven hparted.atop hparted.lt hparted.resting t
  have hquiet := quiet_advance (r.mark t) main true
  have hquiet' := quiet_advance (s.mark t) main false
  have hrest : Rests main id [] (b'.make m') (b.make m) := by
    refine ⟨?_, ?_⟩
    · rw [make, make, hmade, hmade']
      exact hsame.symm
    · rw [make, make, hdeeds, hdeeds', demands_of_quiet _ hquiet, demands_of_quiet _ hquiet', hb]
  refine .of_carries hrest (hdirective'.trans (hsame'.symm.trans hdirective.symm)) ?_ hp hw'
  have hcarries := Carries.complete r t none
  rw [hrun, hparted.stack, ← hend.runner, ← hend.directive] at hcarries
  exact hcarries

/-- An awaitable that ends with an error has it told to the callback, in either case. -/
theorem Abreast.failed (hb : b'.history = b.history) (hparted : Parted main t r s)
    (hend : Ends b.runner r true m t (some e)) (hend' : Ends b'.runner s false m' t (some e))
    (hp : Paired base main mode b b' m m') (hw' : b'.waiting = none) :
    Abreast base main (b.move .direct base m) (b'.move mode base m') := by
  obtain ⟨hmade, hdirective, hdeeds⟩ := hend.eq_advance (by rw [hparted.ticket, hparted.called])
  obtain ⟨hmade', hdirective', hdeeds'⟩ := hend'.eq_advance hparted.called
  have hrun : (r.ticket t).run = main := by rw [hparted.ticket, hparted.run]
  rw [hrun] at hmade hdirective hdeeds
  rw [hparted.run] at hmade' hdirective' hdeeds'
  have hfirst : b.move .direct base m = b.make m := by rw [move, hdirective]; rfl
  have hsecond : b'.move mode base m' = b'.make m' := by rw [move, hdirective']; rfl
  have hmark : (r.mark t).atop main id [] = (s.mark t).atop main driven [] := congrArg (·.mark t) hparted.atop
  have hstack : (r.mark t).stack = [] := hparted.stack
  have hempty : (s.mark t).stack = [] := hparted.empty
  refine ⟨hp.moved, hp.moved', hp.main_lt, by rw [hfirst]; exact hp.waiting, ⟨s.mark t, (b.make m).history, none⟩, driven,
    [⟨main, true, .failed⟩], [⟨main, false, .failed⟩], ?_, ?_, ?_⟩
  · rw [hfirst]
    refine ⟨?_, rfl⟩
    have hover := congrArg (fun r : Runner => r.atop main id [⟨main, true, .failed⟩]) hmark
    simp only [Atop.over_over, List.nil_append] at hover
    rw [make, hmade]
    exact (Atop.push hstack _).trans hover
  · rw [hsecond]
    refine ⟨?_, ?_⟩
    · rw [make, hmade']
      exact Atop.push hempty _
    · have hreports : b.runner.deeds m = b'.runner.deeds m' := by
        rw [hdeeds, hdeeds']
        exact congrArg (fun v => [Deed.completed t (some e), .reported main v [e]]) hparted.done
      change b'.history ++ b'.runner.deeds m' = b.history ++ b.runner.deeds m
      rw [hb, hreports]
  · have hwaiting : (b'.make m').waiting = none := hw'
    rw [hsecond, hwaiting]
    refine .failing fun a ha => ?_
    rw [hempty] at ha
    cases ha

/-- What ends the awaitable of a step has the same effect in the run that still has it and in the one that has left
it to its loop. -/
theorem Abreast.settle {w : Nat} {p : List Nat → List Nat} (hb : Rests main driven [⟨main, true, .settling t⟩] b d)
    (hb' : Rests main id [] b' d) (hempty : d.runner.stack = []) (hcalled : (d.runner.ticket t).called = false)
    (hend : Ends b.runner { b.runner with stack := [] } true m t x)
    (hend' : Ends b'.runner (b'.runner.updateWare w fun ware => { ware with pending := p ware.pending }) false m' t x)
    (hp : Paired base main mode b b' m m') (hw' : b'.waiting = none) :
    Abreast base main (b.move .direct base m) (b'.move mode base m') := by
  have hparted := parted_of_rests (w := w) (p := p) hb hb' hempty hcalled hp.reached hp.reached'
  have hhistory := hb'.history.trans hb.history.symm
  cases x with
  | none => exact .cleared hhistory hparted hend hend' hp hw'
  | some e => exact .failed hhistory hparted hend hend' hp hw'

/-- A callback that was told of the error of an awaitable returns: the run leaves, or has already left. -/
theorem Abreast.refrain (hb : Rests main driven [⟨main, true, .failed⟩] b d)
    (hb' : Rests main id [⟨main, false, .failed⟩] b' d) (hempty : d.runner.stack = [])
    (hp : Paired base main mode b b' (.returned v awaitable) (.returned v awaitable)) (hw' : b'.waiting = none) :
    Abreast base main (b.move .direct base (.returned v awaitable)) (b'.move mode base (.returned v awaitable)) := by
  have hstack : b.runner.stack = [⟨main, true, .failed⟩] := by rw [hb.stack, hempty]; rfl
  have hstack' : b'.runner.stack = [⟨main, false, .failed⟩] := by rw [hb'.stack, hempty]; rfl
  have hready : (b.runner.run main).ready = false := by
    have hr := consistent_of_reached hp.reached
    have hmem : (⟨main, true, .failed⟩ : Activation) ∈ b.runner.stack := by
      rw [hstack]
      exact List.mem_singleton_self _
    exact hr.ready_of_told (hr.run_lt _ hmem) (hr.told _ hmem (.inl rfl))
  have hreact : b.runner.react (.returned v awaitable) =
      (({ b.runner with stack := [] } : Runner).updateRun main Runner.resting, [], .leave) := by
    have hrun : ({ b.runner with stack := [] } : Runner).run main = b.runner.run main := rfl
    simp [react, hstack, returned, resume, drive, hrun, hready]
    rfl
  have hreact' : b'.runner.react (.returned v awaitable) = ({ b'.runner with stack := [] }, [], .leave) := by
    simp [react, hstack', returned, resume]
  have hdriving : (d.runner.run main).driving = false := by
    rw [← hb'.run (.inl rfl)]
    exact driving_of_reached hp.reached' hstack'
  have hrest : Rests main id [] (b'.make (.returned v awaitable)) (b.make (.returned v awaitable)) := by
    refine ⟨?_, ?_⟩
    · have hrunner := congrArg (fun r : Runner => { r.updateRun main Runner.resting with stack := [] }) hb.runner
      have hrunner' := congrArg (fun r : Runner => { r with stack := [] }) hb'.runner
      simp only [Atop.updateRun_self] at hrunner
      have hfixed : (Runner.resting ∘ driven) (d.runner.run main) = d.runner.run main := by
        simp [driven, Runner.resting, ← hdriving]
      rw [Atop.of_fixed hfixed] at hrunner
      rw [make, make, hreact, hreact', Atop.updateRun_over]
      exact hrunner'.trans hrunner.symm
    · have hdeeds : b.runner.deeds (.returned v awaitable) = b'.runner.deeds (.returned v awaitable) := by
        simp [deeds, signals, hstack, hstack', hreact, hreact', lets, demands]
      rw [make, make, hb.history, hb'.history, hdeeds]
  refine .of_carries hrest (by rw [hreact, hreact']) ?_ hp hw'
  rw [make, hreact]
  exact .leave

/-- What both come to by a move each is paired. -/
theorem Abreast.paired (h : Abreast base main b b')
    (hmove : Reached base (b.move .direct base m).runner (b.move .direct base m).history)
    (hmove' : Reached base (b'.move mode base m').runner (b'.move mode base m').history) :
    Paired base main mode b b' m m' :=
  ⟨h.reached, h.reached', hmove, hmove', Nat.lt_of_lt_of_le h.main_lt (Later.move .direct base b m).runs, h.waiting⟩

/-- The same when the second bench no longer waits for the loop. -/
theorem Abreast.paired' (h : Abreast base main b b')
    (hmove : Reached base (b.move .direct base m).runner (b.move .direct base m).history)
    (hmove' : Reached base (({ b' with waiting := none } : Bench).move mode base m').runner
      (({ b' with waiting := none } : Bench).move mode base m').history) :
    Paired base main mode b { b' with waiting := none } m m' :=
  ⟨h.reached, h.reached', hmove, hmove', Nat.lt_of_lt_of_le h.main_lt (Later.move .direct base b m).runs, h.waiting⟩

/-- Who works for the run itself ends by returning. -/
theorem Footing.returns {future : Nat → Nat} (h : Abreast base main b b') (hf : Footing main d.runner f g g' b'.waiting)
    (hb : Rests main f g b d) (hb' : Rests main id g' b' d) (hs : d.runner.stack = []) (hstack : b.runner.stack ≠ [])
    (htake : Reached base (b.take .direct base (.ret v awaitable)).runner (b.take .direct base (.ret v awaitable)).history)
    (htake' : Reached base (b'.take (.queued future) base (.ret v awaitable)).runner
      (b'.take (.queued future) base (.ret v awaitable)).history) :
    Abreast base main (b.take .direct base (.ret v awaitable)) (b'.take (.queued future) base (.ret v awaitable)) := by
  have hbstack : b.runner.stack = g := by rw [hb.stack, hs, List.nil_append]
  have hbstack' : b'.runner.stack = g' := by rw [hb'.stack, hs, List.nil_append]
  have hawaited : b.awaited = none := by rw [awaited, if_neg hstack]
  simp only [take, hawaited] at htake ⊢
  generalize hx : b'.waiting = x at hf
  cases hf with
  | idle => exact absurd hbstack hstack
  | working wait works =>
    have hawaited' : b'.awaited = none := by rw [awaited, if_neg (by simp [hbstack'])]
    simp only [take, hawaited'] at htake' ⊢
    have hrest : Rests main id [] b' b := ⟨hb'.runner.trans hb.runner.symm, hb'.history.trans hb.history.symm⟩
    have hreach (P : Nat → Prop) (hP : ∀ i, P i) : b.runner.Reaches P (.returned v awaitable) :=
      ⟨_, [], hbstack, hP _, fun _ _ => hP _⟩
    -- If the step gives an awaitable, one bench waits for it at once and the other for its future; else both do the same.
    by_cases hawait : ∃ x, (b.runner.react (.returned v awaitable)).2.2 = .await x
    · obtain ⟨y, hy⟩ := hawait
      obtain ⟨a, rest, v', t, hmove, hs', hwait, hgiven, hfault, -⟩ := await_of_react (.inr (hreach _ fun _ => trivial)) hy
      cases hmove
      rw [hbstack] at hs'
      cases hs'
      obtain rfl : wait = .step t := hwait
      have hcalled : (b.runner.ticket t).called = false := by
        rw [hb.ticket]
        exact works (by rw [← hb.ticket]; exact hgiven)
      exact .await hrest (h.paired htake htake') hbstack hgiven hcalled hfault
    · have hgoes := goes_of_reached h.reached (a := ⟨main, true, wait⟩) (by rw [hbstack]; exact List.mem_singleton_self _)
      have hreact : b.runner.react (.returned v awaitable) =
          ({ b.runner with stack := [] } : Runner).returned ⟨main, true, wait⟩ v awaitable := by
        simp only [react, hbstack]
      obtain ⟨hmake, hdirective⟩ := hrest.make (hreach _ fun _ => .inl rfl)
      refine .of_carries hmake hdirective ?_ (h.paired htake htake') hx
      rw [make, hreact]
      refine Carries.returned (r := { b.runner with stack := [] }) hgoes rfl fun x hx => hawait ⟨x, ?_⟩
      rw [hreact, hx]
  | failing =>
    have hawaited' : b'.awaited = none := by rw [awaited, if_neg (by simp [hbstack'])]
    simp only [take, hawaited'] at htake' ⊢
    exact .refrain hb hb' hs (h.paired htake htake') hx
  | apart t fut given called =>
    have hawaited' : b'.awaited = some (t, fut) := by rw [awaited, if_pos hbstack', hx]
    simp only [take, hawaited'] at htake' ⊢
    have hend : Ends b.runner { b.runner with stack := [] } true (.returned v awaitable) t (errorOf v) := by
      refine ⟨?_, ?_, ?_⟩
      · simp [signals, hbstack]
      · simp [react, hbstack, returned, errorOf]
      · simp [react, hbstack, returned, errorOf]
    have hparked : Rests main id [] { b' with waiting := none } d := ⟨hb'.runner, hb'.history⟩
    exact .settle (p := fun l => l.erase fut) hb hparked hs called hend (.settled _ t fut _) (h.paired' htake htake') rfl

/-- Who works for the run itself ends by raising an ordinary error. -/
theorem Footing.raises {future : Nat → Nat} (h : Abreast base main b b') (hf : Footing main d.runner f g g' b'.waiting)
    (hb : Rests main f g b d) (hb' : Rests main id g' b' d) (hs : d.runner.stack = [])
    (hpermitted : (Doing.raise e ordinary).Permitted main b.runner b.atWork)
    (htake : Reached base (b.take .direct base (.raise e ordinary)).runner (b.take .direct base (.raise e ordinary)).history)
    (htake' : Reached base (b'.take (.queued future) base (.raise e ordinary)).runner
      (b'.take (.queued future) base (.raise e ordinary)).history) :
    Abreast base main (b.take .direct base (.raise e ordinary)) (b'.take (.queued future) base (.raise e ordinary)) := by
  have hbstack : b.runner.stack = g := by rw [hb.stack, hs, List.nil_append]
  have hbstack' : b'.runner.stack = g' := by rw [hb'.stack, hs, List.nil_append]
  generalize hx : b'.waiting = x at hf
  cases hf with
  | idle =>
    rw [atWork, hbstack, h.waiting] at hpermitted
    exact hpermitted.elim
  | failing =>
    simp only [atWork, hbstack] at hpermitted
    exact absurd rfl hpermitted.2
  | working wait works =>
    have hawaited : b.awaited = none := by rw [awaited, if_neg (by simp [hbstack])]
    have hawaited' : b'.awaited = none := by rw [awaited, if_neg (by simp [hbstack'])]
    simp only [take, hawaited, hawaited'] at htake htake' ⊢
    simp only [atWork, hbstack] at hpermitted
    cases wait with
    | seeking | settling => exact works.elim
    | failed | finished => exact absurd rfl hpermitted.2
    | step t =>
      obtain ⟨-, hordinary⟩ := hpermitted
      obtain ⟨rfl, hcalled⟩ := hordinary rfl
      have hrest : Rests main id [] b' b := ⟨hb'.runner.trans hb.runner.symm, hb'.history.trans hb.history.symm⟩
      have hreach : b.runner.Reaches (Unseen id main) (.raised e true) :=
        ⟨_, [], hbstack, .inl rfl, fun _ _ => .inl rfl⟩
      have hgoes := goes_of_reached h.reached (a := ⟨main, true, .step t⟩) (by rw [hbstack]; exact List.mem_singleton_self _)
      obtain ⟨hmake, hdirective⟩ := hrest.make hreach
      refine .of_carries hmake hdirective ?_ (h.paired htake htake') hx
      simp only [make, react, hbstack]
      exact Carries.raised (r := { b.runner with stack := [] }) hgoes rfl hcalled e
  | apart t fut given called =>
    have hawaited : b.awaited = none := by rw [awaited, if_neg (by simp [hbstack])]
    have hawaited' : b'.awaited = some (t, fut) := by rw [awaited, if_pos hbstack', hx]
    simp only [take, hawaited, hawaited'] at htake htake' ⊢
    simp only [atWork, hbstack] at hpermitted
    obtain rfl : ordinary = true := hpermitted.2 rfl
    have hend : Ends b.runner { b.runner with stack := [] } true (.raised e true) t (some e) := by
      refine ⟨?_, ?_, ?_⟩
      · simp [signals, hbstack]
      · simp [react, hbstack, raised, failStep]
      · simp [react, hbstack, raised, failStep]
    have hparked : Rests main id [] { b' with waiting := none } d := ⟨hb'.runner, hb'.history⟩
    exact .settle (p := fun l => l.erase fut) hb hparked hs called hend (.settled _ t fut _) (h.paired' htake htake') rfl

/-- Whoever is at work and whatever is done, the same is done at both benches. -/
theorem Abreast.take {future : Nat → Nat} (h : Abreast base main b b') {x : Doing}
    (hx : x.Permitted main b.runner b.atWork) :
    Abreast base main (b.take .direct base x) (b'.take (.queued future) base x) := by
  have hx' := (h.permitted_iff x).mpr hx
  obtain ⟨d, f, g, g', hb, hb', hf⟩ := h.play
  have hwaiting (y : Nat × Nat) (hy : b.waiting = some y) : y.1 < b.runner.tickets.size := by
    rw [h.waiting] at hy
    cases hy
  have hwaiting' (y : Nat × Nat) (hy : b'.waiting = some y) : y.1 < b'.runner.tickets.size := by
    rw [hy] at hf
    have hstack := hb.stack
    cases hf with
    | apart t =>
      have hmem : (⟨main, true, .settling t⟩ : Activation) ∈ b.runner.stack := by simp [hstack]
      rw [h.tickets_eq]
      exact ((consistent_of_reached h.reached).waits _ hmem t (.inr rfl)).1
  have htake := reached_take .direct h.reached hx hwaiting
  have htake' := reached_take (.queued future) h.reached' hx' hwaiting'
  have hstack : b.runner.stack ≠ [] := by
    intro hs
    rw [atWork, hs, h.waiting] at hx
    exact hx
  have hawaited : b.awaited = none := by rw [awaited, if_neg hstack]
  -- What stands above what is beneath ends by itself; else the run's own worker does.
  have hawaited' (a : Activation) (rest : List Activation) (hs : d.runner.stack = a :: rest) : b'.awaited = none := by
    have hne : b'.runner.stack ≠ [] := by
      rw [hb'.stack, hs]
      exact List.cons_ne_nil _ _
    rw [awaited, if_neg hne]
  have hwork (a : Activation) (rest : List Activation) (hs : d.runner.stack = a :: rest) (w : Nat × Wait)
      (hw : b.atWork = some w) : w.1 = a.run := by
    have hbs : b.runner.stack = a :: (rest ++ g) := by rw [hb.stack, hs, List.cons_append]
    rw [(atWork_cons hbs hw).2]
  cases x with
  | use ware step => exact h.use htake htake'
  | start ware inputs done =>
    refine hf.move hb hb' (h.paired htake htake') hstack ?_ ?_ ?_
    · have hlt := h.main_lt
      rw [hb.runs_size] at hlt
      exact .inr (Nat.ne_of_gt hlt)
    · intro v hv
      obtain ⟨_, _, _, _, heq, -⟩ := await_of_react (.inl rfl) hv
      cases heq
    · intro t e he
      simp [signals] at he
  | next t e =>
    have hpermitted : t < b.runner.tickets.size ∧ (b.runner.ticket t).given = true ∧ e ≠ some .null := by
      cases hw : b.atWork with
      | none => rw [hw] at hx; exact hx.elim
      | some w => rw [hw] at hx; exact hx
    obtain ⟨ht, hgiven, -⟩ := hpermitted
    refine hf.move hb hb' (h.paired htake htake') hstack (hf.reaches_next hb h.reached ht hgiven) ?_ ?_
    · intro v
      exact complete_ne_await d.runner t false e v
    · intro u y hy
      simp only [signals, List.mem_singleton, Deed.completed.injEq] at hy
      obtain ⟨rfl, -⟩ := hy
      exact .inl hgiven
  | ret v awaitable =>
    cases hs : d.runner.stack with
    | nil => exact hf.returns h hb hb' hs hstack htake htake'
    | cons a rest =>
      have hmain : awaitable = true → a.run = main := by
        cases hw : b.atWork with
        | none => rw [hw] at hx; exact hx.elim
        | some w =>
          rw [hw] at hx
          rw [← hwork a rest hs w hw]
          exact hx
      simp only [Bench.take, hawaited, hawaited' a rest hs] at htake htake' ⊢
      exact hf.ends hb hb' (h.paired htake htake') hs (.inl ⟨v, awaitable, rfl, hmain⟩)
  | raise e ordinary =>
    cases hs : d.runner.stack with
    | nil => exact hf.raises h hb hb' hs hx htake htake'
    | cons a rest =>
      simp only [Bench.take, hawaited, hawaited' a rest hs] at htake htake' ⊢
      exact hf.ends hb hb' (h.paired htake htake') hs (.inr ⟨e, ordinary, rfl⟩)

/-- A run that begins when nobody is at work begins in the same way with a loop and without one. -/
theorem abreast_begin {future : Nat → Nat} (h : Reached base r τ) (hs : r.stack = []) (ware : Nat) (inputs : List Value)
    (done : Value) : Abreast base r.runs.size (begin .direct base r τ ware inputs done)
      (begin (.queued future) base r τ ware inputs done) := by
  have hstart (mode : Mode) : Reached base (begin mode base r τ ware inputs done).runner
      (begin mode base r τ ware inputs done).history :=
    reached_move (b := ⟨r, τ, none⟩) h (.start ware inputs done)
  have hself : Rests r.runs.size id [] (⟨r, τ, none⟩ : Bench) ⟨r, τ, none⟩ := ⟨rfl, rfl⟩
  obtain ⟨hmake, -⟩ := hself.make (m := .start ware inputs done) (.inl rfl)
  refine .of_carries hmake rfl ?_ ⟨h, h, hstart .direct, hstart (.queued future), ?_, rfl⟩ rfl
  · have hcarries : Carries r.runs.size r.stack (r.react (.start ware inputs done)).2.2
        (r.react (.start ware inputs done)).1.stack :=
      Carries.advance { r with runs := r.runs.push ⟨ware, inputs, done, 0, false, false⟩ } r.runs.size false
    rw [hs] at hcarries
    exact hcarries
  · have hlater : Later (Bench.make ⟨r, τ, none⟩ (.start ware inputs done)) (begin .direct base r τ ware inputs done) := by
      rw [begin, move]
      exact Later.attend ⟨Nat.le_refl _, Nat.le_refl _, fun _ _ => rfl⟩ _ _ _
    refine Nat.lt_of_lt_of_le ?_ hlater.runs
    rw [make, runs_size_start]
    exact Nat.lt_succ_self _

/-- What a run shows of itself is the same whether its awaitables are brought to their ends at once or by a loop:
whatever is done by its steps, their awaitables, its callback and everything they call in turn, what happens is the
same at every point, and so is who has to go on. -/
theorem modes_agree (h : Reached base r τ) (hs : r.stack = []) (ware : Nat) (inputs : List Value) (done : Value)
    (future : Nat → Nat) (doings : List Doing) :
    ((begin .direct base r τ ware inputs done).after .direct base r.runs.size doings).map told =
      ((begin (.queued future) base r τ ware inputs done).after (.queued future) base r.runs.size doings).map told := by
  have hafter (b b' : Bench) (hbb : Abreast base r.runs.size b b') :
      (b.after .direct base r.runs.size doings).map told = (b'.after (.queued future) base r.runs.size doings).map told := by
    induction doings generalizing b b' with
    | nil => exact congrArg some hbb.told_eq.symm
    | cons x xs ih =>
      simp only [after, hbb.permitted_iff x]
      split
      · next hx => exact ih _ _ (hbb.take hx)
      · rfl
  exact hafter _ _ (abreast_begin h hs ware inputs done)

/-- Two steps over one input: the first returns an awaitable, the second takes a continuation. -/
def awaitedThenContinued : Runner where
  wares := #[.new .null (.list 0) none]
  steps := #[⟨.function 0, .str "awaited", some 1, some 1, false, []⟩, ⟨.function 1, .str "continued", some 2, some 2, false, []⟩]
  runs := #[]
  tickets := #[]
  stack := []

/-- The awaitable registers a third step before it ends with a value, the second step calls its continuation and
returns, the third returns, and so does the callback. -/
def registersMeanwhile : List Doing :=
  [.ret (.coroutine 0) true, .use 0 ⟨.function 2, .str "third", some 1, some 1, false, []⟩, .ret (.int 7) false,
    .next 1 none, .ret .null false, .ret .null false, .ret .null false]

/-- The two ways agree on a run with an awaitable, to the end of which each of the doings may be done. -/
theorem modes_agree_registersMeanwhile :
    ((begin .direct (fun _ => [0, 1]) awaitedThenContinued [] 0 [.int 5] (.function 3)).after .direct (fun _ => [0, 1]) 0
        registersMeanwhile).map told =
      ((begin (.queued id) (fun _ => [0, 1]) awaitedThenContinued [] 0 [.int 5] (.function 3)).after (.queued id)
        (fun _ => [0, 1]) 0 registersMeanwhile).map told ∧
      ((begin .direct (fun _ => [0, 1]) awaitedThenContinued [] 0 [.int 5] (.function 3)).after .direct (fun _ => [0, 1]) 0
        registersMeanwhile).map atWork = some none :=
  have hbegin : Reached (fun _ => [0, 1]) awaitedThenContinued [] := .begin rfl rfl rfl
  ⟨modes_agree hbegin rfl 0 [.int 5] (.function 3) id registersMeanwhile, by decide +kernel⟩

end Treeworks.Bench
