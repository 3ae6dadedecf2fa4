import Treeworks.Proofs.Run.Loss
import Treeworks.Proofs.Run.Standing
import Treeworks.Proofs.Passage.Traffic

/-! A passage that is alone in its traffic: what its runner has come to, and which of the stages it has left to do. -/
namespace Treeworks

/-- How far a sequence has come that has ended in a way, with a result, or that has not ended. -/
def Status.ofEnding (result : Value) : Option Ending → Status Value
  | some (.value _) => .gives result
  | some (.error e) => .raises e
  | some .cancelled | none => .waits

/-- How a passage has ended, if it has, with its result. -/
def Call.status (k : Call) : Status Value := .ofEnding k.passage.result k.outcome

/-- The library has a coroutine of the passage to begin or to conclude. -/
def Chore.isDue : Chore → Bool
  | .parse _ | .ended _ _ => true
  | .none | .parsing _ | .compiling _ | .settling _ => false

/-- The step that is being invoked has not completed. -/
def Runner.isFresh (r : Runner) : Bool :=
  match r.stack with
  | ⟨_, _, .step t⟩ :: _ => !(r.ticket t).called
  | _ => false

/-- An activation that can stay on the stack while others are above it: that of a transformer, of a callback of the run
of the transformers, or of the stage that has begun it. -/
inductive Firm (r : Runner) (k : Call) : Activation → Prop
  | step {i t : Nat} (drives : Bool) : k.inner = some i → t < r.tickets.size → (r.stepOf t).callee.isHook = false →
      Firm r k ⟨i, drives, .step t⟩
  | failed {i : Nat} (drives : Bool) : k.inner = some i → Firm r k ⟨i, drives, .failed⟩
  | finished {i : Nat} (drives : Bool) : k.inner = some i → Firm r k ⟨i, drives, .finished⟩
  | stage {t : Nat} (drives : Bool) : t < r.tickets.size → (r.stepOf t).callee = .hook .runStage →
      (r.ticket t).given = true → Firm r k ⟨k.run, drives, .step t⟩

/-- What the topmost activation waits for, by what the library has to do. When it has nothing to do, a transformer or the
compiler is at work, or nothing is on the stack. -/
inductive Poised (r : Runner) (k : Call) : Option Directive → List Activation → Prop
  | seek (steps : Value) (index i : Nat) {rest : List Activation} : (∀ a ∈ rest, Firm r k a) →
      Poised r k (some (.seek steps index)) (⟨i, true, .seeking⟩ :: rest)
  | invoke (args : List Value) (context : Option Value) {t : Nat} {rest : List Activation} : (∀ a ∈ rest, Firm r k a) →
      t < r.tickets.size → (r.ticket t).called = false → (r.ticket t).given = (r.stepOf t).takesNext 1 → k.chore = .none →
      Poised r k (some (.invoke (r.stepOf t) args context)) (⟨k.run, true, .step t⟩ :: rest)
  | await (v : Value) (i t : Nat) {rest : List Activation} : (∀ a ∈ rest, Firm r k a) →
      Poised r k (some (.await v)) (⟨i, true, .settling t⟩ :: rest)
  | call (done : Value) (args : List Value) {a : Activation} {rest : List Activation} : (∀ a ∈ rest, Firm r k a) →
      a.wait = .failed ∨ a.wait = .finished → Poised r k (some (.call done args)) (a :: rest)
  | leave {a : Activation} {rest : List Activation} : (∀ b ∈ a :: rest, Firm r k b) →
      (∀ i drives t, a = ⟨i, drives, .step t⟩ → (r.stepOf t).callee = .hook .runStage ∧ (r.ticket t).given = true) →
      Poised r k (some .leave) (a :: rest)
  | nothing : Poised r k none []
  | step {i t : Nat} (drives : Bool) {rest : List Activation} : (∀ b ∈ ⟨i, drives, .step t⟩ :: rest, Firm r k b) →
      k.inner = some i → Poised r k none (⟨i, drives, .step t⟩ :: rest)
  | compiling {t : Nat} (drives : Bool) {rest : List Activation} : (∀ a ∈ rest, Firm r k a) → k.chore = .compiling t →
      (r.stepOf t).callee = .hook .compileStage → (r.ticket t).given = false →
      Poised r k none (⟨k.run, drives, .step t⟩ :: rest)

namespace Site
variable (site : Site)

/-- The steps that the wares had at the beginning. -/
def base (w : Nat) : List Nat := if w = site.ware then site.registry else [0, 1, 2]

/-- Whether what happens from outside is fair: a transformer completes once, each failure is an ordinary error, and trees
are parked by the parser, the transformers and the compiler while they are at work. -/
def fair (g : Traffic) (k : Call) : Happening → Bool
  | .raised e => site.ordinary e && e.isFault && g.runner.isFresh
  | .next _ (some e) | .settled _ _ (some e) | .broken e => e.isFault
  | .uncompiled e => site.ordinary e && e.isFault
  | .park _ => k.ending.isNone && !k.chore.isDue
  | _ => true

/-- Whether everything is fair that happens to a passage. -/
def fairly (c : Nat) (g : Traffic) : List Event → Bool
  | [] => true
  | e :: es =>
    (match e, g.calls c with
      | .own _ h, some k => site.fair g k h
      | _, _ => true) &&
    match site.step g e with
    | some g => fairly c g es
    | none => true

/-- The invariant of a passage that is alone: its runner has come about by what happened, and has no runs but its own. -/
structure Traced (c : Nat) (g : Traffic) (k : Call) (τ : History) : Prop where
  call : g.calls c = some k
  reached : Reached site.base g.runner τ
  registry : g.registry = site.registry ++ τ.registered site.ware
  stages : ∀ w, w ≠ site.ware → τ.registered w = []
  steps : g.runner.steps = site.runner.steps
  context : ∀ w, (g.runner.ware w).context = (site.runner.ware w).context
  plain : ∀ s ∈ g.registry, (site.runner.step s).callee.isHook = false
  outer : .started k.run 0 [.passage c] (.hook (.finish c c)) ∈ τ
  inner : ∀ i, k.inner = some i → i ≠ k.run ∧ ∃ inputs t, .started i site.ware inputs (.next t) ∈ τ
  runs : ∀ i < g.runner.runs.size, i = k.run ∨ k.inner = some i
  tickets : k.tickets = k.inner.elim [] τ.tickets
  crash : k.crash = none
  escaped : ∀ i t e, .escaped i t e ∉ τ
  poised : Poised g.runner k g.pending g.runner.stack
  finished : ∀ i done inputs, k.inner = some i → τ.reports i = [(done, .null :: inputs)] →
    ∀ a ∈ g.runner.stack, a.run = i → ∀ t, a.wait ≠ .step t

end Site

/-- The error that a completion callback is told of, if it is. -/
def toldError (args : List Value) : Option Value := if args.headD .null = .null then none else some (args.headD .null)

/-- The transformers have not been run before the second stage, and have ended without an error after it. -/
structure Past (k : Call) (τ : History) (n : Nat) : Prop where
  before : n ≤ 1 → k.inner = none
  after : 2 ≤ n → ∀ i, k.inner = some i → ∃ done inputs, τ.reports i = [(done, .null :: inputs)]

/-- What the library has to call, if anything: a stage, or a callback. -/
def Traffic.demand (g : Traffic) : Option Directive := g.pending.filter fun d => !Runner.quiet d

/-- Where a passage that is alone stands: which stage, transformer or callback has its token, with what is left to be
done. A stage or a callback that has to be called has the token. -/
inductive Stands (site : Site) (c : Nat) (k : Call) (τ : History) : Option Directive → Walk Value → Prop
  | between {n : Nat} : n ≤ 3 → τ.Going k.run n → k.chore = .none → k.ending = none → Past k τ n →
      Stands site c k τ none (site.stages c k.passage n)
  | invoked {n t : Nat} {step : Step} {args : List Value} {context : Option Value} : τ.Open k.run t n →
      k.chore = .none → k.ending = none → Past k τ n →
      Stands site c k τ (some (.invoke step args context)) (site.stages c k.passage n)
  | parse {t : Nat} : τ.Open k.run t 0 → k.chore = .parse t → k.ending = none → k.inner = none →
      Stands site c k τ none (do
        let tree ← Walk.parse k.passage.file k.passage.settings
        site.runThenStringify c k.passage tree)
  | parsing {t : Nat} : τ.Open k.run t 0 → k.chore = .parsing t → k.ending = none → k.inner = none →
      Stands site c k τ none (do
        let tree ← Walk.result
        Walk.park tree
        site.runThenStringify c k.passage tree)
  | parsed {t : Nat} {e : Option Value} : τ.Open k.run t 0 → k.chore = .ended t e → k.ending = none → k.inner = none →
      (∀ x, e = some x → x.isFault = true) → Stands site c k τ none (Walk.after e (site.stages c k.passage 1))
  | resting {t i n : Nat} {tree : Value} : τ.Open k.run t 1 → k.chore = .none → k.ending = none → k.inner = some i →
      .started i site.ware [tree, k.passage.file] (.next t) ∈ τ → τ.Going i n →
      Stands site c k τ none (do
        site.transformers tree k.passage.file n false
        site.stages c k.passage 2)
  | transforming {t i u n : Nat} {tree : Value} : τ.Open k.run t 1 → k.chore = .none → k.ending = none →
      k.inner = some i → .started i site.ware [tree, k.passage.file] (.next t) ∈ τ → τ.Open i u n →
      Stands site c k τ none (do
        site.transformers tree k.passage.file n true
        site.stages c k.passage 2)
  | told {t i : Nat} {args : List Value} : τ.Open k.run t 1 → k.chore = .none → k.ending = none → k.inner = some i →
      τ.reports i = [(.next t, args)] → args ≠ [] → (∀ x, toldError args = some x → x.isFault = true) →
      Stands site c k τ (some (.call (.next t) args)) (Walk.after (toldError args) (site.stages c k.passage 2))
  | compiling {t : Nat} : τ.Open k.run t 2 → k.chore = .compiling t ∨ k.chore = .settling t → k.ending = none →
      Past k τ 2 → Stands site c k τ none Walk.result
  | compiled {t : Nat} {e : Option Value} : τ.Open k.run t 2 → k.chore = .ended t e → k.ending = none → Past k τ 2 →
      (∀ x, e = some x → x.isFault = true) → Stands site c k τ none (Walk.after e (site.stages c k.passage 3))
  | reporting {args : List Value} : τ.reports k.run = [(.hook (.finish c c), args)] → k.chore = .none → k.ending = none →
      (∀ i, k.inner = some i → τ.reports i ≠ []) → (∀ x, toldError args = some x → x.isFault = true) →
      Stands site c k τ (some (.call (.hook (.finish c c)) args))
        (Walk.after (toldError args) (site.stages c k.passage 3))
  | ended {e : Option Value} : τ.reports k.run ≠ [] → k.chore = .none →
      k.ending = some (match e with | none => .value (.passage c) | some x => .error x) →
      (∀ i, k.inner = some i → τ.reports i ≠ []) →
      Stands site c k τ none (Walk.after e (site.stages c k.passage 3))

end Treeworks
