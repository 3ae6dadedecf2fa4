import Mathlib.Data.List.TakeWhile
import Treeworks.Proofs.Run.Abreast
import Treeworks.Proofs.Slot.Reading
import Treeworks.Interpreter

/-! Runs as they are seen from outside: who has made the move that an activation belongs to, when `run` has returned to
its caller, and which errors come out of moves, and to whom. -/
namespace Treeworks
open Runner
variable {base : Nat → List Nat} {r : Runner} {τ : History} {m : Move} {main i j t : Nat}

/-! ### The run that a move is about -/

/-- Whether a move answers what the topmost activation has asked for. -/
def Move.answers : Move → Bool
  | .found _ | .returned .. | .raised .. | .watching _ => true
  | .start .. | .next .. | .settled .. => false

/-- Whether a directive ends the move that came from outside. -/
def Directive.ends : Directive → Bool
  | .leave | .fail _ => true
  | .seek .. | .invoke .. | .await _ | .call .. => false

namespace Runner

/-- The run that a move is about: a new one, that of a ticket, or that of the topmost activation. -/
def subject (r : Runner) : Move → Nat
  | .start .. => r.runs.size
  | .next t _ | .settled t _ _ => (r.ticket t).run
  | .found _ | .returned .. | .raised .. | .watching _ => (r.stack.head?.map (·.run)).getD 0

theorem subject_of_answers {a : Activation} {rest : List Activation} (hs : r.stack = a :: rest)
    (hm : m.answers = true) : r.subject m = a.run := by
  cases m with
  | start | next | settled => cases hm
  | found | returned | raised | watching => simp [subject, hs]

/-- A move puts nothing on the stack but an activation of the run that it is about. -/
theorem onto_react (hgoes : ∀ a rest, r.stack = a :: rest → r.Goes a (· = a.run)) (m : Move) :
    Onto (r.subject m) (r.below m) (r.react m).1.stack := by
  cases m with
  | start w inputs done => exact .advance { r with runs := r.runs.push ⟨w, inputs, done, 0, false, false⟩ } _ false none
  | next t e => exact .complete r t false e
  | settled t future e =>
    cases e with
    | none => exact .complete (r.updateWare _ _) t false none
    | some e => exact .complete (r.updateWare _ _) t false (some e)
  | found step =>
    cases hs : r.stack with
    | nil => simp [Runner.react, below, hs, Onto]
    | cons a rest =>
      simp only [Runner.react, below, subject, hs]
      exact .proceed { r with stack := rest } a.run step
  | returned v awaitable =>
    cases hs : r.stack with
    | nil => simp [Runner.react, below, hs, Onto]
    | cons a rest =>
      simp only [Runner.react, below, subject, hs]
      exact .returned (r := { r with stack := rest }) (hgoes a rest hs) v awaitable
  | raised e ordinary =>
    cases hs : r.stack with
    | nil => simp [Runner.react, below, hs, Onto]
    | cons a rest =>
      simp only [Runner.react, below, subject, hs]
      exact .raised (r := { r with stack := rest }) (hgoes a rest hs) e ordinary
  | watching future =>
    cases hs : r.stack with
    | nil => simp [Runner.react, below, hs, Onto]
    | cons a rest =>
      simp only [Runner.react, below, subject, hs]
      exact .drive (Runner.updateWare { r with stack := rest } _ _) a.run

/-- What a directive waits for has an activation of that run on top. -/
theorem stack_react (hgoes : ∀ a rest, r.stack = a :: rest → r.Goes a (· = a.run)) (m : Move) :
    ((r.react m).2.2.ends = true ∧ (r.react m).1.stack = r.below m) ∨
      ((r.react m).2.2.ends = false ∧ ∃ a, a.run = r.subject m ∧ (r.react m).1.stack = a :: r.below m) := by
  have hputs := puts_react r m
  have hshort : (r.react m).1.stack ≠ r.below m →
      ∃ a, a.run = r.subject m ∧ (r.react m).1.stack = a :: r.below m := by
    intro hne
    exact (onto_react hgoes m).resolve_left hne
  generalize (r.react m).2.2 = d at hputs ⊢
  generalize (r.react m).1.stack = l at hputs hshort ⊢
  cases hputs with
  | leave | fail => exact .inl ⟨rfl, rfl⟩
  | seek | invoke | await | failed | finished => exact .inr ⟨rfl, hshort (List.cons_ne_self _ _)⟩

/-- What is demanded is about the run of the move. -/
theorem demands_react (hgoes : ∀ a rest, r.stack = a :: rest → r.Goes a (· = a.run)) {x : Deed}
    (hx : x ∈ (r.react m).1.demands (r.react m).2.2) :
    (∃ t k args, x = .invoked (r.subject m) t k args) ∨ ∃ done args, x = .reported (r.subject m) done args := by
  rcases stack_react hgoes m with ⟨hends, -⟩ | ⟨-, a, ha, hs⟩
  · cases hd : (r.react m).2.2 with
    | leave | fail => simp [hd, demands] at hx
    | seek | invoke | await | call => simp [hd, Directive.ends] at hends
  · unfold demands at hx
    rw [hs] at hx
    obtain ⟨i, drives, wait⟩ := a
    split at hx
    · split at hx
      case h_1 hcons =>
        cases hcons
        exact .inl ⟨_, _, _, by rw [← ha]; exact List.mem_singleton.mp hx⟩
      case h_2 => cases hx
    · rw [List.mem_singleton] at hx
      exact .inr ⟨_, _, by rw [← ha]; exact hx⟩
    · cases hx

theorem invocations_of_ne (hgoes : ∀ a rest, r.stack = a :: rest → r.Goes a (· = a.run)) (hi : r.subject m ≠ i) :
    (r.deeds m).invocations i = [] := by
  rw [History.invocations, filterMap_deeds r m _ (fun _ _ _ _ => rfl) (fun _ _ => rfl) (fun _ _ _ => rfl)
    fun _ _ => rfl, List.filterMap_eq_nil_iff]
  intro x hx
  rcases demands_react hgoes hx with ⟨t, k, args, rfl⟩ | ⟨done, args, rfl⟩
  · simp [hi]
  · rfl

/-- A move signals nothing through the tickets of other runs. -/
theorem firstCompletion_of_ne (h : Reached base r τ) (hi : r.subject m ≠ i) (ht : t ∈ τ.tickets i) :
    (r.deeds m).firstCompletion t = none := by
  have hrun := ((consistent_of_reached h).ticket_of_mem ht).2
  have hwait {a : Activation} {rest : List Activation} (hs : r.stack = a :: rest) (ha : a.run ≠ i) :
      a.wait ≠ .step t ∧ a.wait ≠ .settling t := by
    have hgoes := (Bench.goes_of_reached h (a := a) (by rw [hs]; exact List.mem_cons_self)).2
    refine ⟨fun hw => ha ?_, fun hw => ha ?_⟩
    · rw [← hgoes t (.inl hw), hrun]
    · rw [← hgoes t (.inr hw), hrun]
  refine firstCompletion_deeds ?_
  intro e he
  cases m with
  | start | found | watching => simp [signals] at he
  | next u x | settled u future x =>
    simp only [signals, List.mem_singleton, Deed.completed.injEq] at he
    exact hi (by simp only [subject]; rw [← he.1, hrun])
  | returned v awaitable =>
    simp only [signals] at he
    split at he
    case h_1 hs =>
      have hw := hwait hs (by simpa [subject, hs] using hi)
      simp only [List.mem_singleton, Deed.completed.injEq] at he
      exact hw.2 (by rw [he.1])
    case h_2 hs =>
      have hw := hwait hs (by simpa [subject, hs] using hi)
      split at he
      · cases he
      · simp only [List.mem_singleton, Deed.completed.injEq] at he
        exact hw.1 (by rw [he.1])
    case h_3 => cases he
  | raised x ordinary =>
    simp only [signals] at he
    split at he
    case h_1 hs =>
      have hw := hwait hs (by simpa [subject, hs] using hi)
      split at he
      · simp only [List.mem_singleton, Deed.completed.injEq] at he
        exact hw.1 (by rw [he.1])
      · cases he
    case h_2 hs =>
      have hw := hwait hs (by simpa [subject, hs] using hi)
      split at he
      · simp only [List.mem_singleton, Deed.completed.injEq] at he
        exact hw.2 (by rw [he.1])
      · cases he
    case h_3 | h_4 => simp at he
    case h_5 => cases he

end Runner

/-! ### Moves with their origins -/

/-- Who makes a move from outside: the caller of a run, who calls a continuation, or the loop when a future has
ended. -/
inductive Origin
  | caller (run : Nat)
  | continuation
  | loop
  deriving DecidableEq

/-- What shows outside: something that happened, a run that returned to its caller, or an error that came out of the
move of somebody while a run was gone on with. -/
inductive Sign
  | deed (d : Deed)
  | left (run : Nat)
  | surfaced (run : Nat) (origin : Origin) (error : Value)
  deriving DecidableEq

/-- An activation with who made the move that it belongs to, and with what was asked for. -/
structure Seat where
  activation : Activation
  origin : Origin
  asked : Directive
  deriving DecidableEq

/-- A runner with the seats of its activations, the futures that are watched for tickets, and what has shown outside
so far, the latest last. -/
structure Scene where
  runner : Runner
  seats : List Seat
  futures : List (Nat × Nat)
  signs : List Sign

namespace Sign

/-- What happened. -/
@[simp] def deed? : Sign → Option Deed
  | .deed d => some d
  | .left _ | .surfaced .. => none

/-- An error that came out for a run, with whom it came to. -/
@[simp] def surfacing? (i : Nat) : Sign → Option (Origin × Value)
  | .surfaced j origin error => if j = i then some (origin, error) else none
  | .deed _ | .left _ => none

end Sign

namespace Scene
variable {s : Scene}

/-- What has happened. -/
def history (s : Scene) : History := s.signs.filterMap Sign.deed?

/-- The errors that have come out for a run. -/
def surfacings (s : Scene) (i : Nat) : List (Origin × Value) := s.signs.filterMap (Sign.surfacing? i)

/-- What had shown before something happened for the first time. -/
def before (s : Scene) (d : Deed) : List Sign := s.signs.takeWhile (· ≠ .deed d)

/-- The seats of a run. -/
def seatsOf (s : Scene) (i : Nat) : List Seat := s.seats.filter (·.activation.run = i)

/-- Who makes a move; an answer belongs to the move that has asked for it. -/
def originOf (s : Scene) : Move → Origin
  | .start .. => .caller s.runner.runs.size
  | .next .. => .continuation
  | .settled .. => .loop
  | .found _ | .returned .. | .raised .. | .watching _ => (s.seats.head?.map (·.origin)).getD .continuation

/-- The seats that stay when a move is taken. -/
def under (s : Scene) : Move → List Seat
  | .start .. | .next .. | .settled .. => s.seats
  | .found _ | .returned .. | .raised .. | .watching _ => s.seats.tail

/-- The seat of what a move waits for, unless it has ended. -/
def seat (s : Scene) (m : Move) : Option Seat :=
  if (s.runner.react m).2.2.ends then none
  else (s.runner.react m).1.stack.head?.map fun a => ⟨a, s.originOf m, (s.runner.react m).2.2⟩

/-- What shows when a move ends. -/
def ending (s : Scene) (m : Move) : List Sign :=
  match (s.runner.react m).2.2, s.originOf m with
  | .leave, .caller i => [.left i]
  | .fail e, o => [.surfaced (s.runner.subject m) o e]
  | _, _ => []

/-- The futures that are watched after a move. -/
def watched (s : Scene) : Move → List (Nat × Nat)
  | .watching future =>
    match s.runner.stack with
    | ⟨_, _, .settling t⟩ :: _ => s.futures ++ [(t, future)]
    | _ => s.futures
  | .settled t future _ => s.futures.erase (t, future)
  | .start .. | .found _ | .next .. | .returned .. | .raised .. => s.futures

/-- A move is made. -/
def make (s : Scene) (m : Move) : Scene where
  runner := (s.runner.react m).1
  seats := (s.seat m).toList ++ s.under m
  futures := s.watched m
  signs := s.signs ++ ((s.runner.deeds m).map .deed ++ s.ending m)

/-- Whether a move tells how work has ended that was asked for. -/
def Tells (w : Work Value) : Move → Prop
  | .returned v _ => ∃ σ m, (w σ m).1 = .done v
  | .raised e _ => ∃ σ m, (w σ m).1 = .raised e
  | .start .. | .found _ | .next .. | .settled .. | .watching _ => False

/-- Two parameters, of which the second takes the rest. -/
theorem boundArguments_bail (name : String) (v : Value) (rest : List Value) (n : Machine) :
    (Work.boundArguments name (Store.hookSignature .bail) (v :: rest) []).Gives n [v, .null] n := by
  have hsignature : Store.hookSignature .bail = [⟨"error", .ordinary, true⟩, ⟨"rest", .rest, true⟩] := by decide
  have hfits : (Store.hookSignature .bail).misfit? (rest.length + 1) [] = none := by
    rw [hsignature]
    simp [Signature.misfit?, Signature.keywordMisfit?, Signature.positions, Signature.missingKeywords, Signature.hasRest,
      Signature.accepted, Parameter.byPosition]
  have hkeys : Table.keys ([] : Table Value) = [] := rfl
  intro σ
  simp only [Work.boundArguments, Signature.bind, List.length_cons]
  rw [hkeys, hfits, hsignature]
  rfl

/-- The default callback raises the error that it is called with. -/
theorem call_bail_error (k : Nat) (rest : List Value) (σ : Service) (n : Machine) :
    (Work.call (.hook .bail) (.fault k :: rest) [] σ n).1 = .raised (.fault k) := by
  simp only [Work.call, Work.callHook]
  rw [(Work.gives_query _ n).bind_eq, (boundArguments_bail _ _ _ _).bind_eq]
  rfl

/-- The default callback does nothing when it is called without an error. -/
theorem call_bail_null (rest : List Value) (σ : Service) (n : Machine) :
    Work.call (.hook .bail) (.null :: rest) [] σ n = (.done .null, n) := by
  simp only [Work.call, Work.callHook]
  rw [(Work.gives_query _ n).bind_eq, (boundArguments_bail _ _ _ _).bind_eq]
  rfl

/-- How what a run has asked for may end. A step that was given its continuation has called it when it returns, a step
raises before its continuation is called, and steps and their awaitables raise ordinary errors. The callback ends as
the call of it does. -/
def Answers (r : Runner) (x : Seat) (m : Move) : Prop :=
  match x.activation.wait, m with
  | .step t, .returned .. => (r.ticket t).given = true → (r.ticket t).called = true
  | .step t, .raised e ordinary => ordinary = true ∧ e.isFault = true ∧ (r.ticket t).called = false
  | .settling _, .raised e ordinary => ordinary = true ∧ e.isFault = true
  | .failed, m | .finished, m => ∀ done args, x.asked = .call done args → Tells (Work.call done args []) m
  | _, _ => True

/-- What may come when a run without a callback of its own is looked at: its callback is the default one, the first
call of a continuation of it is made while the step that was given it is being invoked, and hands no error over, and a
future of it ends that is watched, in a value or in an error. Other runs do as they like. -/
def Fair (main : Nat) (s : Scene) : Move → Prop
  | .start _ _ done => s.runner.runs.size = main → done = .hook .bail
  | .next t error => (s.runner.ticket t).run = main → (s.runner.ticket t).called = false →
      error = none ∧ (s.runner.ticket t).given = true ∧ ∃ a ∈ s.runner.stack, a.wait = .step t
  | .settled t future error => (s.runner.ticket t).run = main →
      (t, future) ∈ s.futures ∧ ∀ e, error = some e → e.isFault = true
  | m => ∀ x ∈ s.seats.head?, x.activation.run = main → Answers s.runner x m

end Scene

/-- The scenes that can come about from one without runs, when one run is looked at. -/
inductive Staged (base : Nat → List Nat) (main : Nat) : Scene → Prop
  | begin {r : Runner} : r.runs = #[] → r.tickets = #[] → r.stack = [] → Staged base main ⟨r, [], [], []⟩
  | register {s : Scene} (ware step : Nat) :
      Staged base main s → Staged base main { s with signs := s.signs ++ [.deed (.registered ware step)] }
  | equip {s : Scene} (wares : Array Ware) (steps : Array Step) :
      Staged base main s → Staged base main { s with runner := { s.runner with wares := wares, steps := steps } }
  | move {s : Scene} {m : Move} :
      Staged base main s → s.runner.Admits (s.history.registry base) m → s.Fair main m → Staged base main (s.make m)

namespace Scene
variable {s : Scene} {e : Option Value} {x : Seat}

/-! ### What a move shows -/

@[simp] theorem deed?_map (τ : History) : (τ.map Sign.deed).filterMap Sign.deed? = τ := by
  rw [List.filterMap_map]
  exact List.filterMap_some

@[simp] theorem surfacing?_map (τ : History) (i : Nat) : (τ.map Sign.deed).filterMap (Sign.surfacing? i) = [] := by
  rw [List.filterMap_map, List.filterMap_eq_nil_iff]
  intro d hd
  rfl

theorem mem_history {d : Deed} : d ∈ s.history ↔ .deed d ∈ s.signs := by
  rw [history, List.mem_filterMap]
  constructor
  · rintro ⟨x, hx, hd⟩
    cases x with
    | deed d' =>
      obtain rfl : d' = d := Option.some.inj hd
      exact hx
    | left | surfaced => cases hd
  · intro hd
    exact ⟨_, hd, rfl⟩

/-- What shows at the end of a move is no deed. -/
theorem history_ending (s : Scene) (m : Move) : (s.ending m).filterMap Sign.deed? = [] := by
  unfold ending
  split <;> rfl

theorem history_make (s : Scene) (m : Move) : (s.make m).history = s.history ++ s.runner.deeds m := by
  rw [history, make, List.filterMap_append, List.filterMap_append, deed?_map, history_ending, List.append_nil, history]

theorem surfacings_make (s : Scene) (m : Move) (i : Nat) :
    (s.make m).surfacings i = s.surfacings i ++ (s.ending m).filterMap (Sign.surfacing? i) := by
  rw [surfacings, make, List.filterMap_append, List.filterMap_append, surfacing?_map, List.nil_append, surfacings]

theorem left_make (s : Scene) (m : Move) (i : Nat) :
    .left i ∈ (s.make m).signs ↔ .left i ∈ s.signs ∨ .left i ∈ s.ending m := by
  simp [make]

/-- What had shown before something that happened stays so. -/
theorem before_append {d : Deed} (hd : .deed d ∈ s.signs) (l : List Sign) :
    (s.signs ++ l).takeWhile (· ≠ .deed d) = s.before d := by
  rw [before, List.takeWhile_append, if_neg]
  intro hall
  have hwhole := (List.takeWhile_prefix _).eq_of_length hall
  simpa using List.takeWhile_eq_self_iff.mp hwhole _ hd

/-- What stands where the seats say, on a runner that can come about. -/
structure Coherent (base : Nat → List Nat) (s : Scene) : Prop where
  reached : Reached base s.runner s.history
  seats : s.seats.map (·.activation) = s.runner.stack
  callers : ∀ x ∈ s.seats, ∀ i, x.origin = .caller i → x.activation.run = i
  futures : ∀ p ∈ s.futures, p.1 < s.runner.tickets.size

namespace Coherent

theorem goes (h : s.Coherent base) (a : Activation) (rest : List Activation) (hs : s.runner.stack = a :: rest) :
    s.runner.Goes a (· = a.run) :=
  Bench.goes_of_reached h.reached (by rw [hs]; exact List.mem_cons_self)

theorem under (h : s.Coherent base) (m : Move) : (s.under m).map (·.activation) = s.runner.below m := by
  cases m with
  | start | next | settled => exact h.seats
  | found | returned | raised | watching =>
    simp only [Scene.under, Runner.below, List.map_tail, h.seats]

/-- A move has a seat when it waits for something, and none when it has ended. -/
theorem seat_cases (h : s.Coherent base) (m : Move) :
    ((s.runner.react m).2.2.ends = true ∧ s.seat m = none ∧ (s.runner.react m).1.stack = s.runner.below m) ∨
      ∃ a, s.seat m = some ⟨a, s.originOf m, (s.runner.react m).2.2⟩ ∧ a.run = s.runner.subject m ∧
        (s.runner.react m).1.stack = a :: s.runner.below m := by
  rcases stack_react h.goes m with ⟨hends, hstack⟩ | ⟨hends, a, ha, hstack⟩
  · exact .inl ⟨hends, by rw [seat, if_pos hends], hstack⟩
  · refine .inr ⟨a, ?_, ha, hstack⟩
    rw [seat, if_neg (by simp [hends]), hstack]
    rfl

/-- What the caller of a run makes is about that run. -/
theorem subject_of_caller (h : s.Coherent base) (ho : s.originOf m = .caller i) : s.runner.subject m = i := by
  cases m with
  | start => exact Origin.caller.inj ho
  | next | settled => cases ho
  | found | returned | raised | watching =>
    cases hseats : s.seats with
    | nil => simp [originOf, hseats] at ho
    | cons y l =>
      have hs : s.runner.stack = y.activation :: l.map (·.activation) := by rw [← h.seats, hseats, List.map_cons]
      simp only [originOf, hseats, List.head?_cons, Option.map_some, Option.getD_some] at ho
      simpa [subject, hs] using h.callers y (by rw [hseats]; exact List.mem_cons_self) i ho

theorem move (h : s.Coherent base) (hm : s.runner.Admits (s.history.registry base) m) : (s.make m).Coherent base where
  reached := by
    rw [history_make]
    exact h.reached.move hm
  seats := by
    rcases h.seat_cases m with ⟨-, hseat, hstack⟩ | ⟨a, hseat, -, hstack⟩
    · simp only [make, hseat, hstack]
      exact h.under m
    · simp only [make, hseat, hstack]
      exact congrArg (a :: ·) (h.under m)
  callers := by
    intro x hx i ho
    have hunder : ∀ y ∈ s.under m, y ∈ s.seats := by
      intro y hy
      cases m with
      | start | next | settled => exact hy
      | found | returned | raised | watching => exact List.mem_of_mem_tail hy
    rw [make, List.mem_append] at hx
    rcases hx with hx | hx
    · rcases h.seat_cases m with ⟨-, hseat, -⟩ | ⟨a, hseat, ha, -⟩
      · simp [hseat] at hx
      · obtain rfl : x = _ := by simpa [hseat] using hx
        exact ha.trans (h.subject_of_caller ho)
    · exact h.callers x (hunder x hx) i ho
  futures := by
    intro p hp
    refine Nat.lt_of_lt_of_le ?_ (sizes_react s.runner m).2
    cases m with
    | start | found | next | returned | raised => exact h.futures p hp
    | settled t future e => exact h.futures p (List.mem_of_mem_erase hp)
    | watching future =>
      simp only [make, watched] at hp
      split at hp
      case h_1 hs =>
        rw [List.mem_append, List.mem_singleton] at hp
        rcases hp with hp | rfl
        · exact h.futures p hp
        · exact ((consistent_of_reached h.reached).waits _ (by rw [hs]; exact List.mem_cons_self) _ (.inr rfl)).1
      case h_2 => exact h.futures p hp

end Coherent

/-- What comes about agrees with itself. -/
theorem coherent_of_staged (h : Staged base main s) : s.Coherent base := by
  induction h with
  | begin hruns htickets hstack => exact ⟨.begin hruns htickets hstack, hstack.symm, by simp, by simp⟩
  | register ware step _ ih =>
    refine ⟨?_, ih.seats, ih.callers, ih.futures⟩
    simp only [history, List.filterMap_append, List.filterMap_cons, Sign.deed?, List.filterMap_nil]
    exact ih.reached.register ware step
  | equip wares steps _ ih => exact ⟨ih.reached.equip wares steps, ih.seats, ih.callers, ih.futures⟩
  | move _ hm _ ih => exact ih.move hm

/-! ### The seats of a run -/

/-- The topmost seat, when an answer comes. -/
theorem Coherent.head (h : s.Coherent base) {a : Activation} {rest : List Activation} (hs : s.runner.stack = a :: rest) :
    ∃ y l, s.seats = y :: l ∧ y.activation = a ∧ l.map (·.activation) = rest := by
  have hseats := h.seats
  rw [hs] at hseats
  exact List.map_eq_cons_iff.mp hseats

/-- A move is about a run that there is, unless one begins. -/
theorem Coherent.subject_lt (h : s.Coherent base) (hm : s.runner.Admits (s.history.registry base) m)
    (hbegins : m.begins = false) : s.runner.subject m < s.runner.runs.size := by
  have hconsistent := consistent_of_reached h.reached
  cases hm with
  | start => cases hbegins
  | next ht | settled _ ht => exact (hconsistent.ticket _ ht).1
  | found hs | returned _ _ hs | raised _ hs | watching _ hs =>
    rw [subject_of_answers hs rfl]
    exact hconsistent.run_lt _ (by rw [hs]; exact List.mem_cons_self)

/-- A move leaves the seats of other runs alone. -/
theorem Coherent.seatsOf_of_ne (h : s.Coherent base) (hi : s.runner.subject m ≠ i) :
    (s.make m).seatsOf i = s.seatsOf i := by
  have hunder : (s.under m).filter (·.activation.run = i) = s.seatsOf i := by
    cases m with
    | start | next | settled => rfl
    | found | returned | raised | watching =>
      cases hseats : s.seats with
      | nil => simp [Scene.under, seatsOf, hseats]
      | cons y l =>
        have hs : s.runner.stack = y.activation :: l.map (·.activation) := by rw [← h.seats, hseats, List.map_cons]
        have hy : y.activation.run ≠ i := by simpa [subject, hs] using hi
        simp [Scene.under, seatsOf, hseats, hy]
  rw [seatsOf, make, List.filter_append, hunder]
  rcases h.seat_cases m with ⟨-, hseat, -⟩ | ⟨a, hseat, ha, -⟩
  · simp [hseat]
  · simp [hseat, ha, hi]

end Scene
end Treeworks
