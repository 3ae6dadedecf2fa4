import Treeworks.Proofs.Run.Play
import Treeworks.Proofs.Run.Whereabouts

/-! A run without a callback of its own: the first error of a step comes out once, to the caller of the run as long as
that is there, and to the loop after that. -/
namespace Treeworks
open Runner
variable {base : Nat → List Nat} {r : Runner} {τ υ : History} {m : Move} {main i t u : Nat} {e : Value} {s : Scene} {x : Seat}

namespace Scene

/-- The callback of a run is the default one. -/
def Bails (main : Nat) (s : Scene) : Prop :=
  ∀ w inputs done, .started main w inputs done ∈ s.history → done = .hook .bail

theorem Coherent.done_of_bails (h : s.Coherent base) (hb : Bails main s) (hi : main < s.runner.runs.size) :
    (s.runner.run main).done = .hook .bail :=
  hb _ _ _ (((consistent_of_reached h.reached).started main _ _ _).mpr ⟨hi, rfl, rfl, rfl⟩)

/-- The seat of a run that is on top, when there is no other. -/
theorem Coherent.head_of_alone (h : s.Coherent base) (alone : s.seatsOf main = [x]) {a : Activation} {rest : List Activation}
    (hs : s.runner.stack = a :: rest) (ha : a.run = main) :
    ∃ l, s.seats = x :: l ∧ x.activation = a ∧ l.filter (·.activation.run = main) = [] := by
  obtain ⟨y, l, hseats, rfl, -⟩ := h.head hs
  have hall : s.seatsOf main = y :: l.filter (·.activation.run = main) := by simp [seatsOf, hseats, ha]
  rw [alone] at hall
  obtain ⟨rfl, hnil⟩ := List.cons.inj hall
  exact ⟨l, hseats, rfl, hnil.symm⟩

/-- A run that has a seat is not without one. -/
theorem Coherent.not_nil_of_run (h : s.Coherent base) {a : Activation} (hs : a ∈ s.runner.stack) (ha : a.run = main) :
    s.seatsOf main ≠ [] := by
  rw [← h.seats] at hs
  obtain ⟨y, hy, rfl⟩ := List.mem_map.mp hs
  exact List.ne_nil_of_mem (List.mem_filter.mpr ⟨hy, by simpa using ha⟩)

/-- What is answered to a run that is alone. -/
theorem Coherent.moves_of_answers (h : s.Coherent base) {l : List Seat} (hseats : s.seats = x :: l)
    (hnil : l.filter (·.activation.run = main) = []) (hrun : x.activation.run = main)
    (begun : main < s.runner.runs.size) (origin : x.origin = owner main s.signs) (silent : s.surfacings main = [])
    (hm : m.answers = true) : Moves base main s m := by
  have hs : s.runner.stack = x.activation :: l.map (·.activation) := by rw [← h.seats, hseats, List.map_cons]
  refine ⟨h, Nat.lt_of_lt_of_le begun (sizes_react s.runner m).1, by rw [subject_of_answers hs hm, hrun], ?_, ?_, silent⟩
  · cases m with
    | start | next | settled => cases hm
    | found | returned | raised | watching => simp [Scene.under, hseats, hnil]
  · cases m with
    | start | next | settled => cases hm
    | found | returned | raised | watching => simp [originOf, hseats, origin]

namespace Inside

/-- What was watched and had completed has done so. -/
theorem kept_append (hx : s.Inside main x) {l : List (Nat × Nat)} (hl : ∀ p ∈ l, p ∈ s.futures)
    (hinv : υ.invocations main = []) :
    ∀ p ∈ l, p.1 ∈ (s.history ++ υ).tickets main → ((s.history ++ υ).firstCompletion p.1).isSome := by
  intro p hp hticket
  rw [tickets_append hinv] at hticket
  obtain ⟨y, hy⟩ := Option.isSome_iff_exists.mp (hx.kept p (hl p hp) hticket)
  rw [History.firstCompletion_append_of_some _ _ _ hy]
  rfl

/-- The index of a run has nothing: its callback is called without an error. -/
theorem finish (hx : s.Inside main x) (hm : Moves base main s (.found none)) (hb : Bails main s) {a : Activation}
    {rest : List Activation} (hs : s.runner.stack = a :: rest) (ha : a.run = main) :
    Stand main (s.make (.found none)) := by
  obtain ⟨hdirective, hdeeds⟩ := found_none hs
  have hhistory := history_make s (.found none)
  rw [hdeeds] at hhistory
  rw [ha, hm.coherent.done_of_bails hb hx.begun] at hdirective
  refine hm.stay (by rw [hdirective]; rfl) ?_ ?_ ?_
  · rw [hhistory]
    refine hx.sound.append rfl ?_
    intro t _ e he
    rw [History.firstCompletion_append] at he
    simpa [History.firstCompletion] using he
  · intro b hstack
    have hputs := puts_react s.runner (.found none)
    rw [hdirective, hstack] at hputs
    rw [hdirective]
    cases hputs <;> exact ⟨_, rfl⟩
  · rw [hhistory]
    exact hx.kept_append (fun p hp => hp) rfl

/-- The next step of a run is invoked. -/
theorem invoke (hx : s.Inside main x) (hm : Moves base main s (.found (some t))) {a : Activation}
    {rest : List Activation} (hs : s.runner.stack = a :: rest) (ha : a.run = main) :
    Stand main (s.make (.found (some t))) := by
  obtain ⟨hdirective, hstack, -, hdeeds⟩ := found_some hs t
  have hhistory := history_make s (.found (some t))
  rw [hdeeds, ha] at hhistory
  have hfresh : s.history.firstCompletion s.runner.tickets.size = none :=
    (consistent_of_reached hm.coherent.reached).fresh _ (Nat.le_refl _)
  have hcompletion (u : Nat) : (s.make (.found (some t))).history.firstCompletion u = s.history.firstCompletion u := by
    rw [hhistory, History.firstCompletion_append]
    simp [History.firstCompletion]
  have htickets : (s.make (.found (some t))).history.tickets main = s.history.tickets main ++ [s.runner.tickets.size] := by
    rw [hhistory, History.tickets, History.invocations_append, List.map_append, History.tickets]
    simp [History.invocations]
  refine hm.stay (by rw [hdirective]; rfl) ?_ ?_ ?_
  · rintro u e ⟨hmem, he⟩
    rw [hcompletion] at he
    rw [htickets, List.mem_append, List.mem_singleton] at hmem
    rcases hmem with hmem | rfl
    · exact hx.sound u e ⟨hmem, he⟩
    · rw [hfresh] at he
      cases he
  · intro b hb
    rw [hstack] at hb
    obtain rfl := (List.cons.inj hb).1
    intro hsome
    rw [hcompletion, hfresh] at hsome
    cases hsome
  · intro p hp hmem
    have hlt := hm.coherent.futures p hp
    rw [htickets, List.mem_append, List.mem_singleton] at hmem
    rw [hcompletion]
    exact hx.kept p hp (hmem.resolve_right (Nat.ne_of_lt hlt))

/-- A run goes on after its last step has completed without an error, or has said nothing. -/
theorem carry (hx : s.Inside main x) (hm : Moves base main s m) (hd : carries (s.runner.react m).2.2 = true)
    (hdeeds : s.runner.deeds m = [] ∨ ∃ t, s.runner.deeds m = [.completed t none])
    (hfutures : ∀ p ∈ s.watched m, p ∈ s.futures) : Stand main (s.make m) := by
  have hinv : (s.runner.deeds m).invocations main = [] := by
    rcases hdeeds with hdeeds | ⟨t, hdeeds⟩ <;> rw [hdeeds] <;> rfl
  refine hm.carry hd ?_ ?_
  · rw [history_make]
    refine hx.sound.append hinv ?_
    intro u _ e he
    rcases hdeeds with hdeeds | ⟨t, hdeeds⟩
    · rw [hdeeds, List.append_nil] at he
      exact he
    · rw [hdeeds, History.firstCompletion_append] at he
      cases hu : s.history.firstCompletion u with
      | some y => simpa [hu] using he
      | none =>
        rw [hu] at he
        by_cases hut : t = u
        · simp [History.firstCompletion, hut] at he
        · simp [History.firstCompletion, hut] at he
  · intro _
    rw [history_make]
    exact hx.kept_append hfutures hinv

/-- The step that a run on the stack waits for is the one that it is at, until that has completed. -/
theorem open_of_waits (h : s.Coherent base) (hx : s.Inside main x)
    (ht : x.activation.wait = .step t ∨ x.activation.wait = .settling t)
    (huncompleted : s.history.firstCompletion t = none) :
    (s.runner.ticket t).called = false ∧ ∃ n, s.history.Open main t n := by
  have hmem : x ∈ s.seatsOf main := by rw [hx.alone]; exact List.mem_singleton_self x
  obtain ⟨hlt, hrun, -⟩ := h.ticket_of_seat hmem ht
  have hconsistent := consistent_of_reached h.reached
  have hcalled : (s.runner.ticket t).called = false := by
    rw [(hconsistent.ticket t hlt).2.2, huncompleted]
    rfl
  refine ⟨hcalled, ?_⟩
  rw [← hrun]
  exact hconsistent.open_of_uncalled hlt hcalled

/-- What a run on the stack waits for returns. -/
theorem returned (hx : s.Inside main x) {v : Value} {awaitable : Bool} (hm : Moves base main s (.returned v awaitable))
    (hb : Bails main s) {rest : List Activation} (hs : s.runner.stack = x.activation :: rest)
    (hseeks : x.activation.wait ≠ .seeking) (hf : Answers s.runner x (.returned v awaitable)) :
    Stand main (s.make (.returned v awaitable)) := by
  have hdone := hm.coherent.done_of_bails hb hx.begun
  have hwaits := hx.waits
  obtain ⟨⟨i, drives, wait⟩, origin, asked⟩ := x
  unfold Waits at hwaits
  cases wait with
  | seeking => exact absurd rfl hseeks
  | failed | finished =>
    have hdeeds : s.runner.deeds (.returned v awaitable) = [] := (quiet_returned_told hs (by simp)).2
    exact hx.carry hm (carries_returned_told hs (by simp)) (.inl hdeeds) fun p hp => hp
  | settling t =>
    obtain ⟨-, n, hopen⟩ := hx.open_of_waits hm.coherent (.inr rfl) hwaits
    have hcompletes := Completes.concluded hs v awaitable
    by_cases hfault : v.isFault = true
    · rw [errorOf, if_pos hfault] at hcompletes
      exact hm.fall hcompletes hopen hdone hfault
    · rw [errorOf, if_neg hfault] at hcompletes
      exact hx.carry hm hcompletes.carries (.inr ⟨t, hcompletes.clears.2⟩) fun p hp => hp
  | step t =>
    -- A step that has been given its continuation says by that alone that it is done.
    by_cases hgiven : (s.runner.ticket t).given = true
    · have hdeeds : s.runner.deeds (.returned v awaitable) = [] := (quiet_returned_given hs hgiven).2
      refine hx.carry hm ?_ (.inl hdeeds) fun p hp => hp
      have hticket : ({ s.runner with stack := rest } : Runner).ticket t = s.runner.ticket t := rfl
      simp only [Runner.react, hs, Runner.returned, hticket, hgiven, if_true]
      exact carries_drive _ _
    · have hungiven : (s.runner.ticket t).given = false := by simpa using hgiven
      have huncompleted : s.history.firstCompletion t = none := by
        rw [← Option.not_isSome_iff_eq_none]
        exact fun hsome => hgiven (hwaits hsome)
      obtain ⟨-, n, hopen⟩ := hx.open_of_waits hm.coherent (.inl rfl) huncompleted
      by_cases hfault : v.isFault = true
      · have hcompletes : s.runner.Completes (.returned v awaitable) t (errorOf v) := .returned hs hungiven (.inl hfault)
        rw [errorOf, if_pos hfault] at hcompletes
        exact hm.fall hcompletes hopen hdone hfault
      · cases awaitable with
        | false =>
          have hcompletes := Completes.returned (v := v) hs hungiven (.inr rfl)
          rw [errorOf, if_neg hfault] at hcompletes
          exact hx.carry hm hcompletes.carries (.inr ⟨t, hcompletes.clears.2⟩) fun p hp => hp
        | true =>
          have hunfault : v.isFault = false := by simpa using hfault
          obtain ⟨hdirective, hdeeds⟩ := quiet_returned_awaitable hs hungiven hunfault
          have hhistory : (s.make (.returned v true)).history = s.history := by
            rw [history_make, hdeeds, List.append_nil]
          refine hm.stay (by rw [hdirective]; rfl) (by rw [hhistory]; exact hx.sound) ?_ (by rw [hhistory]; exact hx.kept)
          intro a hstack
          have hticket : ({ s.runner with stack := rest } : Runner).ticket t = s.runner.ticket t := rfl
          have hpush : (s.runner.react (.returned v true)).1.stack = ⟨i, true, .settling t⟩ :: rest := by
            simp [Runner.react, hs, Runner.returned, hticket, hungiven, hunfault, Runner.push]
          rw [hstack] at hpush
          obtain rfl := (List.cons.inj hpush).1
          change (s.make (.returned v true)).history.firstCompletion t = none
          rw [hhistory, huncompleted]

/-- What a run on the stack waits for raises an error. -/
theorem raised (hx : s.Inside main x) {ordinary : Bool} (hm : Moves base main s (.raised e ordinary))
    (hb : Bails main s) {rest : List Activation} (hs : s.runner.stack = x.activation :: rest)
    (hseeks : x.activation.wait ≠ .seeking) (hf : Answers s.runner x (.raised e ordinary)) :
    Stand main (s.make (.raised e ordinary)) := by
  have hdone := hm.coherent.done_of_bails hb hx.begun
  have hwaits := hx.waits
  obtain ⟨⟨i, drives, wait⟩, origin, asked⟩ := x
  unfold Waits at hwaits
  cases wait with
  | seeking => exact absurd rfl hseeks
  | failed | finished =>
    obtain ⟨inputs, rfl⟩ := hwaits
    obtain ⟨σ, n, htells⟩ := hf _ _ rfl
    rw [call_bail_null] at htells
    cases htells
  | settling t =>
    obtain ⟨rfl, hfault⟩ := hf
    obtain ⟨-, n, hopen⟩ := hx.open_of_waits hm.coherent (.inr rfl) hwaits
    exact hm.fall (Completes.aborted hs e) hopen hdone hfault
  | step t =>
    obtain ⟨rfl, hfault, hcalled⟩ := hf
    have hmem : t < s.runner.tickets.size :=
      ((consistent_of_reached hm.coherent.reached).waits _ (by rw [hs]; exact List.mem_cons_self) t (.inl rfl)).1
    have huncompleted : s.history.firstCompletion t = none := by
      rw [← Option.not_isSome_iff_eq_none, ← ((consistent_of_reached hm.coherent.reached).ticket t hmem).2.2, hcalled]
      exact Bool.false_ne_true
    obtain ⟨-, n, hopen⟩ := hx.open_of_waits hm.coherent (.inl rfl) huncompleted
    exact hm.fall (Completes.raised hs hcalled e) hopen hdone hfault

/-- The loop takes over the awaitable of the step that a run is at, and the run leaves. -/
theorem watching (hx : s.Inside main x) {future : Nat} (hm : Moves base main s (.watching future))
    {rest : List Activation} (hs : s.runner.stack = x.activation :: rest) (ht : x.activation.wait = .settling t) :
    Stand main (s.make (.watching future)) := by
  obtain ⟨-, hdeeds⟩ := quiet_watching s.runner future
  have hwaits := hx.waits
  rw [Waits, ht] at hwaits
  have hmem : x ∈ s.seatsOf main := by rw [hx.alone]; exact List.mem_singleton_self x
  obtain ⟨hlt, hrun, -⟩ := hm.coherent.ticket_of_seat hmem (.inr ht)
  obtain ⟨hcalled, -⟩ := hx.open_of_waits hm.coherent (.inr ht) hwaits
  have hidle := ((consistent_of_reached hm.coherent.reached).last_of_uncalled hlt hcalled).2.1
  have hactivation : x.activation.run = main := by simpa using (List.mem_filter.mp hmem).2
  have hleave : (s.runner.react (.watching future)).2.2 = .leave := by
    simp only [Runner.react, hs]
    refine leave_of_idle ?_
    rw [hactivation, ← hrun]
    exact hidle
  refine hm.carry (by rw [hleave]; rfl) ?_ (fun hne => absurd hleave hne)
  rw [history_make, hdeeds, List.append_nil]
  exact hx.sound

end Inside

/-- A run begins. -/
theorem Coherent.stand_start (h : s.Coherent base) (w : Nat) (inputs : List Value) (done : Value)
    (hi : s.runner.runs.size = main) (hs : Stand main s) : Stand main (s.make (.start w inputs done)) := by
  have hlt (hlt : main < s.runner.runs.size) : False := by omega
  cases hs with
  | inside x hx => exact (hlt hx.begun).elim
  | failing _ _ _ begun | away begun | broken _ _ begun => exact (hlt begun).elim
  | fresh unbegun here silent =>
    have hconsistent := consistent_of_reached h.reached
    obtain ⟨hquiet, hdeeds⟩ := quiet_start s.runner w inputs done
    have hhistory := history_make s (.start w inputs done)
    rw [hdeeds] at hhistory
    have htickets : (s.make (.start w inputs done)).history.tickets main = [] := by
      rw [hhistory, tickets_append rfl]
      exact hconsistent.tickets_of_size_le unbegun
    have hmoves : Moves base main s (.start w inputs done) := by
      refine ⟨h, ?_, hi, ?_, ?_, silent⟩
      · have hsize : (s.make (.start w inputs done)).runner.runs.size = s.runner.runs.size + 1 := runs_size_start ..
        omega
      · rw [List.filter_eq_nil_iff]
        intro y hy
        have hrun := hconsistent.run_lt y.activation (by rw [← h.seats]; exact List.mem_map_of_mem hy)
        simp only [decide_eq_true_eq]
        omega
      · simp [originOf, owner, here, hi]
    refine hmoves.carry (carries_of_quiet hquiet (advance_ne_await _ _ false none)) ?_ ?_
    · rintro t e ⟨hmem, -⟩
      rw [htickets] at hmem
      cases hmem
    · intro _ p _ hmem
      rw [htickets] at hmem
      cases hmem

/-- The continuation of the step that is being invoked is called for the first time. -/
theorem Inside.tell (hx : s.Inside main x) (h : s.Coherent base) (hlt : t < s.runner.tickets.size)
    (hcalled : (s.runner.ticket t).called = false) (hgiven : (s.runner.ticket t).given = true)
    (hrun : (s.runner.ticket t).run = main) (hwait : x.activation.wait = .step t) :
    (s.make (.next t none)).Inside main x := by
  have hconsistent := consistent_of_reached h.reached
  have hmem : x ∈ s.seatsOf main := by rw [hx.alone]; exact List.mem_singleton_self x
  obtain ⟨hseat, hactivation⟩ := List.mem_filter.mp hmem
  have hactivation : x.activation.run = main := by simpa using hactivation
  have hstack : x.activation ∈ s.runner.stack := by
    rw [← h.seats]
    exact List.mem_map_of_mem hseat
  -- The run that invokes the step is at work itself, so that the call of the continuation does no more than note it.
  have hdriving : (s.runner.run main).driving = true := by
    have hpos : 0 < s.runner.drivers main :=
      List.countP_pos_iff.mpr ⟨_, hstack, by simp [hactivation, hconsistent.drives _ hstack (by simp [hwait])]⟩
    have hdrivers := hconsistent.drivers_eq main
    rw [if_neg (by simp)] at hdrivers
    split at hdrivers
    · assumption
    · omega
  obtain ⟨hleave, hdeeds⟩ := leave_of_driving (by rw [hrun]; exact hx.begun) hcalled (by rw [hrun]; exact hdriving)
  have hhistory := history_make s (.next t none)
  rw [hdeeds] at hhistory
  have hseats : (s.make (.next t none)).seatsOf main = s.seatsOf main := by
    simp [seatsOf, make, seat, hleave, Directive.ends, Scene.under]
  have hending : s.ending (.next t none) = [] := by simp [ending, hleave, originOf]
  refine ⟨Nat.lt_of_lt_of_le hx.begun (sizes_react s.runner _).1, hseats.trans hx.alone, ?_, ?_, ?_, ?_, ?_⟩
  · rw [surfacings_make, hx.silent, hending]
    rfl
  · rw [Moves.owner_waiting hending, hx.origin]
  · rw [hhistory]
    refine hx.sound.append rfl ?_
    intro u _ e he
    rw [History.firstCompletion_append] at he
    cases hu : s.history.firstCompletion u with
    | some y => simpa [hu] using he
    | none =>
      rw [hu] at he
      by_cases hut : t = u
      · simp [History.firstCompletion, hut] at he
      · simp [History.firstCompletion, hut] at he
  · rw [Waits, hwait]
    intro _
    have hsame : ((s.make (.next t none)).runner.ticket t).given = (s.runner.ticket t).given := given_react s.runner _ hlt
    rw [hsame, hgiven]
  · rw [hhistory]
    exact hx.kept_append (fun p hp => hp) rfl

/-- A future ends that is watched for the step that a run is at, after the run has left the stack. -/
theorem Coherent.stand_settled (h : s.Coherent base) (hb : Bails main s) {future : Nat} {y : Option Value}
    (begun : main < s.runner.runs.size) (alone : s.seatsOf main = []) (silent : s.surfacings main = [])
    (left : .left main ∈ s.signs) (sound : s.history.Sound main) (hrun : (s.runner.ticket t).run = main) {n : Nat}
    (hopen : s.history.Open main t n) (hfault : ∀ e, y = some e → e.isFault = true) :
    Stand main (s.make (.settled t future y)) := by
  have hmoves : Moves base main s (.settled t future y) :=
    ⟨h, Nat.lt_of_lt_of_le begun (sizes_react s.runner _).1, hrun, alone, by simp [originOf, owner, left], silent⟩
  have hcompletes := Completes.settled s.runner t future y
  cases y with
  | some e => exact hmoves.fall hcompletes hopen (h.done_of_bails hb begun) (hfault e rfl)
  | none =>
    have hdeeds := hcompletes.clears.2
    have hcompletion (u : Nat) : (s.make (.settled t future none)).history.firstCompletion u =
        if u = t then some none else s.history.firstCompletion u := by
      rw [history_make, hdeeds, History.firstCompletion_append]
      by_cases hut : u = t
      · subst hut
        rw [hopen.uncompleted]
        simp [History.firstCompletion]
      · simp [History.firstCompletion, hut, Ne.symm hut]
    have htickets : (s.make (.settled t future none)).history.tickets main = s.history.tickets main := by
      rw [history_make, hdeeds]
      exact tickets_append rfl
    refine hmoves.carry hcompletes.carries ?_ ?_
    · rintro u e ⟨hmem, he⟩
      rw [htickets] at hmem
      rw [hcompletion] at he
      split at he
      · cases he
      · exact sound u e ⟨hmem, he⟩
    · -- what else is watched belongs to earlier steps, since only one step of a run is open
      intro _ p _ hmem
      rw [htickets] at hmem
      rw [hcompletion]
      split
      · rfl
      · next hne =>
        rw [← Option.ne_none_iff_isSome]
        intro hnone
        obtain ⟨hlt, hticket⟩ := (consistent_of_reached h.reached).ticket_of_mem hmem
        have hcalled : (s.runner.ticket p.1).called = false := by
          rw [((consistent_of_reached h.reached).ticket p.1 hlt).2.2, hnone]
          rfl
        obtain ⟨k, hopen'⟩ := (consistent_of_reached h.reached).open_of_uncalled hlt hcalled
        rw [hticket] at hopen'
        exact hne (hopen'.unique hopen).1

/-- A callback that has been called ends as the call of it does. -/
theorem tells_of_answers {done : Value} {args : List Value} (hf : Answers r x m)
    (told : x.activation.wait = .failed ∨ x.activation.wait = .finished) (asked : x.asked = .call done args) :
    Tells (Work.call done args []) m := by
  unfold Answers at hf
  rcases told with hwait | hwait
  · rw [hwait] at hf
    exact hf _ _ asked
  · rw [hwait] at hf
    exact hf _ _ asked

theorem before_make (m : Move) {d : Deed} (hd : d ∈ s.history) : (s.make m).before d = s.before d :=
  before_append (mem_history.mp hd) _

/-- The default callback raises the error that it is told of, which comes out of the run. -/
theorem Coherent.stand_raised (h : s.Coherent base) {d : Value} {ordinary : Bool} (begun : main < s.runner.runs.size)
    (silent : s.surfacings main = []) (told : x.activation.wait = .failed ∨ x.activation.wait = .finished) (asked : x.asked = .call (.hook .bail) [e])
    (fault : e.isFault = true) (fallen : s.history.Fallen main t e)
    (origin : x.origin = owner main (s.before (.completed t (some e)))) {l : List Seat} (hseats : s.seats = x :: l)
    (hnil : l.filter (·.activation.run = main) = []) (hrun : x.activation.run = main)
    (hf : Answers s.runner x (.raised d ordinary)) : Stand main (s.make (.raised d ordinary)) := by
  obtain rfl : d = e := by
    obtain ⟨k, rfl⟩ : ∃ k, e = .fault k := by
      cases e with
      | fault k => exact ⟨k, rfl⟩
      | _ => cases fault
    obtain ⟨σ, n, htells⟩ := tells_of_answers hf told asked
    rw [call_bail_error] at htells
    exact (Outcome.raised.inj htells).symm
  have hs : s.runner.stack = x.activation :: l.map (·.activation) := by rw [← h.seats, hseats, List.map_cons]
  have hfail : (s.runner.react (.raised d ordinary)).2.2 = .fail d := by
    simp only [Runner.react, hs, Runner.raised]
    rcases told with hwait | hwait
    · rw [hwait]
      rfl
    · rw [hwait]
      rfl
  have hsubject : s.runner.subject (.raised d ordinary) = main := by rw [subject_of_answers hs rfl, hrun]
  have hending : s.ending (.raised d ordinary) = [.surfaced main x.origin d] := by
    simp [ending, hfail, hsubject, originOf, hseats]
  refine .broken t d (Nat.lt_of_lt_of_le begun (sizes_react s.runner _).1) ?_ ?_ ?_
  · simp [seatsOf, make, seat, hfail, Directive.ends, Scene.under, hseats] at hnil ⊢
    exact hnil
  · rw [history_make]
    exact fallen.append (invocations_deeds (by simp [hfail]) main)
  · rw [surfacings_make, silent, hending, before_make _ (mem_of_fallen fallen), origin]
    simp

/-- An answer to a run that stands somewhere. -/
theorem Coherent.stand_answer (h : s.Coherent base) (hb : Bails main s) (hm : s.runner.Admits (s.history.registry base) m)
    (hanswers : m.answers = true) (hsubject : s.runner.subject m = main) (hf : s.Fair main m) (hs : Stand main s) :
    Stand main (s.make m) := by
  have hlt : main < s.runner.runs.size := by
    rw [← hsubject]
    refine h.subject_lt hm ?_
    cases m with
    | start => cases hanswers
    | found | next | settled | returned | raised | watching => rfl
  obtain ⟨a, rest, hstack⟩ : ∃ a rest, s.runner.stack = a :: rest := by
    cases hm with
    | start | next | settled => cases hanswers
    | found hstack | returned _ _ hstack | raised _ hstack | watching _ hstack => exact ⟨_, _, hstack⟩
  have ha : a.run = main := by rw [← subject_of_answers hstack hanswers, hsubject]
  have hseated := h.not_nil_of_run (by rw [hstack]; exact List.mem_cons_self) ha
  have hfair {y : Seat} {l : List Seat} (hseats : s.seats = y :: l) (hy : y.activation = a) : Answers s.runner y m := by
    cases m with
    | start | next | settled => cases hanswers
    | found | returned | raised | watching => exact hf y (by simp [hseats]) (by rw [hy, ha])
  -- An answer comes only where the run has a seat; there it stands inside, or is failing.
  cases hs with
  | fresh unbegun => exact absurd unbegun (Nat.not_le_of_lt hlt)
  | away _ alone | broken _ _ _ alone => exact absurd alone hseated
  | inside x hx =>
    obtain ⟨l, hseats, hactivation, hnil⟩ := h.head_of_alone hx.alone hstack ha
    subst hactivation
    have hmoves : Moves base main s m := h.moves_of_answers hseats hnil ha hlt hx.origin hx.silent hanswers
    cases hm with
    | start | next | settled => cases hanswers
    | @found b _ hs hw =>
      generalize (s.history.registry base (s.runner.run b.run).ware)[(s.runner.run b.run).index]? = k at hmoves ⊢
      cases k with
      | none => exact hx.finish hmoves hb hstack ha
      | some k => exact hx.invoke hmoves hstack ha
    | returned v awaitable hs hw =>
      rw [hstack] at hs
      obtain rfl := (List.cons.inj hs).1
      exact hx.returned hmoves hb hstack hw (hfair hseats rfl)
    | raised ordinary hs hw =>
      rw [hstack] at hs
      obtain rfl := (List.cons.inj hs).1
      exact hx.raised hmoves hb hstack hw (hfair hseats rfl)
    | watching future hs hw =>
      rw [hstack] at hs
      obtain rfl := (List.cons.inj hs).1
      exact hx.watching hmoves hstack hw
  | failing x t e begun alone silent told asked fault fallen origin =>
    obtain ⟨l, hseats, hactivation, hnil⟩ := h.head_of_alone alone hstack ha
    subst hactivation
    cases hm with
    | start | next | settled => cases hanswers
    | found hs hw =>
      rw [hstack] at hs
      obtain rfl := (List.cons.inj hs).1
      rcases told with htold | htold
      · rw [hw] at htold
        cases htold
      · rw [hw] at htold
        cases htold
    | watching future hs hw =>
      rw [hstack] at hs
      obtain rfl := (List.cons.inj hs).1
      rcases told with htold | htold
      · rw [hw] at htold
        cases htold
      · rw [hw] at htold
        cases htold
    | returned v awaitable =>
      obtain ⟨σ, n, htells⟩ := tells_of_answers (hfair hseats rfl) told asked
      cases e with
      | fault k =>
        rw [call_bail_error] at htells
        cases htells
      | _ => cases fault
    | raised ordinary =>
      exact h.stand_raised begun silent told asked fault fallen origin hseats hnil ha (hfair hseats rfl)

/-- A continuation is called, or a future ends. -/
theorem Coherent.stand_signal (h : s.Coherent base) (hb : Bails main s)
    (hm : (∃ y, m = .next t y) ∨ ∃ future y, m = .settled t future y) (hlt : t < s.runner.tickets.size)
    (hrun : (s.runner.ticket t).run = main) (hf : s.Fair main m) (hs : Stand main s) : Stand main (s.make m) := by
  cases hcalled : (s.runner.ticket t).called with
  | true => exact (h.passes_of_called hm hlt hcalled).stand h hs
  | false =>
    obtain ⟨n, hopen⟩ := (consistent_of_reached h.reached).open_of_uncalled hlt hcalled
    rw [hrun] at hopen
    have hbegun : main < s.runner.runs.size := by
      rw [← hrun]
      exact ((consistent_of_reached h.reached).ticket t hlt).1
    cases hs with
    | fresh unbegun => exact absurd unbegun (Nat.not_le_of_lt hbegun)
    | failing _ _ _ _ _ _ _ _ _ fallen | broken _ _ _ _ fallen => exact absurd hopen.unreported fallen.reported
    | inside x hx =>
      rcases hm with ⟨y, rfl⟩ | ⟨future, y, rfl⟩
      · obtain ⟨rfl, hgiven, a, ha, hwait⟩ := hf hrun hcalled
        have harun : a.run = main := by
          rw [← hrun]
          exact ((Bench.goes_of_reached h.reached ha).2 t (.inl hwait)).symm
        have hactivation : x.activation = a := by
          rw [← h.seats] at ha
          obtain ⟨z, hz, rfl⟩ := List.mem_map.mp ha
          have hmem : z ∈ s.seatsOf main := List.mem_filter.mpr ⟨hz, by simpa using harun⟩
          rw [hx.alone, List.mem_singleton] at hmem
          rw [hmem]
        exact .inside x (hx.tell h hlt hcalled hgiven hrun (by rw [hactivation, hwait]))
      · obtain ⟨hmem, -⟩ := hf hrun
        have hsome := hx.kept _ hmem hopen.mem_tickets
        rw [hopen.uncompleted] at hsome
        cases hsome
    | away begun alone silent left sound =>
      rcases hm with ⟨y, rfl⟩ | ⟨future, y, rfl⟩
      · obtain ⟨-, -, a, ha, hwait⟩ := hf hrun hcalled
        refine absurd alone (h.not_nil_of_run ha ?_)
        rw [← hrun]
        exact ((Bench.goes_of_reached h.reached ha).2 t (.inl hwait)).symm
      · exact h.stand_settled hb begun alone silent left sound hrun hopen (hf hrun).2

/-- Every move that may come takes a run from where it stands to where it may stand. -/
theorem Coherent.stand_make (h : s.Coherent base) (hb : Bails main s) (hm : s.runner.Admits (s.history.registry base) m)
    (hf : s.Fair main m) (hs : Stand main s) : Stand main (s.make m) := by
  by_cases hsubject : s.runner.subject m = main
  · cases m with
    | start w inputs done => exact h.stand_start w inputs done hsubject hs
    | next t y =>
      cases hm with
      | next hlt => exact h.stand_signal hb (.inl ⟨y, rfl⟩) hlt hsubject hf hs
    | settled t future y =>
      cases hm with
      | settled _ hlt => exact h.stand_signal hb (.inr ⟨future, y, rfl⟩) hlt hsubject hf hs
    | found | returned | raised | watching => exact h.stand_answer hb hm rfl hsubject hf hs
  · exact (h.passes_of_ne hsubject).stand h hs

/-- A run that begins has the default callback. -/
theorem bails_make (hb : Bails main s) (hf : s.Fair main m) : Bails main (s.make m) := by
  intro w inputs done hmem
  rw [history_make, List.mem_append] at hmem
  rcases hmem with hmem | hmem
  · exact hb w inputs done hmem
  · obtain ⟨rfl, hi⟩ := started_mem_deeds hmem
    exact hf hi.symm

/-- Where a run stands in whatever comes about. -/
theorem stand_of_staged (h : Staged base main s) : Bails main s ∧ Stand main s := by
  induction h with
  | begin hruns htickets hstack => exact ⟨by simp [Bails, history], .fresh (by simp [hruns]) (by simp) rfl⟩
  | @register s ware step h ih =>
    have hhistory : ({ s with signs := s.signs ++ [.deed (.registered ware step)] } : Scene).history =
        s.history ++ [.registered ware step] := by simp [history]
    refine ⟨?_, Passes.stand (coherent_of_staged h) ⟨rfl, ⟨_, rfl, by simp, rfl, rfl⟩, ?_, fun p hp => .inl hp,
      fun _ _ => rfl, id, id⟩ ih.2⟩
    · intro w inputs done hmem
      rw [hhistory] at hmem
      exact ih.1 w inputs done (by simpa using hmem)
    · intro t ht
      rw [hhistory, History.firstCompletion_append]
      simp [History.firstCompletion]
  | equip wares steps h ih =>
    exact ⟨ih.1, Passes.stand (coherent_of_staged h) ⟨rfl, ⟨[], (List.append_nil _).symm, by simp, rfl, rfl⟩,
      fun _ _ => rfl, fun p hp => .inl hp, fun _ _ => rfl, id, id⟩ ih.2⟩
  | move h hm hf ih =>
    exact ⟨bails_make ih.1 hf, (coherent_of_staged h).stand_make ih.1 hm hf ih.2⟩

end Scene
/-- A failure of a run without a callback of its own is neither lost nor doubled. As long as no step fails, no error
comes out of the run. A step that fails is the last one that is invoked, and its very error comes out once, by the
default callback: to the caller of the run unless that has returned before the failure, and else to the loop. -/
theorem failure_surfaces_once (h : Staged base main s) :
    (s.history.Sound main → s.surfacings main = []) ∧
      ∀ t e, s.history.Fails main t e → (s.history.tickets main).getLast? = some t ∧
        (s.surfacings main = [(if .left main ∈ s.before (.completed t (some e)) then .loop else .caller main, e)] ∨
          s.surfacings main = [] ∧ ∃ x, s.seatsOf main = [x] ∧ x.asked = .call (.hook .bail) [e]) := by
  have hstand := (Scene.stand_of_staged h).2
  constructor
  · intro hsound
    cases hstand with
    | fresh _ _ silent | failing _ _ _ _ _ silent | away _ _ silent => exact silent
    | inside x hx => exact hx.silent
    | broken t e _ _ fallen => exact absurd fallen.fails (hsound t e)
  · intro t e hfails
    cases hstand with
    | fresh unbegun =>
      have hnone := (consistent_of_reached (Scene.coherent_of_staged h).reached).tickets_of_size_le unbegun
      have hmem := hfails.1
      rw [hnone] at hmem
      cases hmem
    | inside x hx => exact absurd hfails (hx.sound t e)
    | away _ _ _ _ sound => exact absurd hfails (sound t e)
    | failing x u d _ alone silent _ asked _ fallen =>
      obtain ⟨rfl, rfl⟩ := fallen.unique hfails
      exact ⟨fallen.getLast, .inr ⟨silent, x, alone, asked⟩⟩
    | broken u d _ _ fallen surfaced =>
      obtain ⟨rfl, rfl⟩ := fallen.unique hfails
      exact ⟨fallen.getLast, .inl surfaced⟩

namespace Scene

/-- What becomes of a scene by a sequence of moves. -/
def play (s : Scene) (ms : List Move) : Scene := ms.foldl make s

/-- Each move of a sequence may come when it does. -/
def Plays (base : Nat → List Nat) (main : Nat) : Scene → List Move → Prop
  | _, [] => True
  | s, m :: ms => s.runner.Admits (s.history.registry base) m ∧ s.Fair main m ∧ (s.make m).Plays base main ms

end Scene

theorem Staged.play {ms : List Move} (h : Staged base main s) (hms : s.Plays base main ms) :
    Staged base main (s.play ms) := by
  induction ms generalizing s with
  | nil => exact h
  | cons m ms ih => exact ih (h.move hms.1 hms.2.1) hms.2.2

/-- Three steps over one input, of which the second takes a continuation. -/
def threeSteps : Runner where
  wares := #[.new .null (.list 0) none]
  steps := #[⟨.function 0, .str "first", some 1, some 1, false, []⟩, ⟨.function 1, .str "second", some 2, some 2, false, []⟩,
    ⟨.function 2, .str "third", some 1, some 1, false, []⟩]
  runs := #[]
  tickets := #[]
  stack := []

/-- The first step returns an awaitable, and the run leaves. After that has ended, the second step calls its
continuation and returns, the third one raises an error, and so does the callback. -/
def fallsAfterLeaving : List Move :=
  [.start 0 [.int 1] (.hook .bail), .found (some 0), .returned (.coroutine 0) true, .watching 0, .settled 0 0 none,
    .found (some 1), .next 1 none, .returned .null false, .found (some 2), .raised (.fault 0) true,
    .raised (.fault 0) true]

/-- The error of a step that fails after the run has returned to its caller goes to the loop. -/
theorem failure_surfaces_fallsAfterLeaving :
    let s := (⟨threeSteps, [], [], []⟩ : Scene).play fallsAfterLeaving
    Staged (fun _ => [0, 1, 2]) 0 s ∧ s.history.Fails 0 2 (.fault 0) ∧ (s.history.tickets 0).getLast? = some 2 ∧
      s.surfacings 0 = [(.loop, .fault 0)] := by
  intro s
  have hstaged : Staged (fun _ => [0, 1, 2]) 0 s := by
    refine Staged.play (.begin rfl rfl rfl) ?_
    refine ⟨by decide, fun _ => rfl, by decide, ?_, by decide, ?_, by decide, ?_, by decide, ?_, by decide, ?_, by decide, ?_,
      by decide, ?_, by decide, ?_, by decide, ?_, by decide, ?_, trivial⟩
    · rintro x ⟨⟩ -
      trivial
    · rintro x ⟨⟩ -
      exact nofun
    · rintro x ⟨⟩ -
      trivial
    · exact fun _ => ⟨by decide, nofun⟩
    · rintro x ⟨⟩ -
      trivial
    · exact fun _ _ => ⟨rfl, by decide, by decide⟩
    · rintro x ⟨⟩ -
      exact fun _ => by decide
    · rintro x ⟨⟩ -
      trivial
    · rintro x ⟨⟩ -
      exact ⟨rfl, rfl, by decide⟩
    · rintro x ⟨⟩ -
      rintro done args ⟨⟩
      exact ⟨.idle, default, Scene.call_bail_error 0 [] .idle default⟩
  have hfails : s.history.Fails 0 2 (.fault 0) := ⟨by decide, by decide⟩
  obtain ⟨hlast, hone | ⟨hnone, -⟩⟩ := (failure_surfaces_once hstaged).2 2 (.fault 0) hfails
  · rw [if_pos (by decide)] at hone
    exact ⟨hstaged, hfails, hlast, hone⟩
  · exact absurd hnone (by decide)

end Treeworks
