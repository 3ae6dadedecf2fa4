import Mathlib.Logic.Function.Basic
import Treeworks.Proofs.Run.History
import Treeworks.Proofs.Passage.Composition

/-! Passages in flight at one site. Each has two runs of the same runner: one of the three stages, and one of the
transformers that the second stage begins. What the stages do is done here as it falls due; everything else comes
from outside, whenever it comes. -/
namespace Treeworks

/-- A coroutine that a stage of a passage has made: one that parses and has not begun, one whose parser or compiler is
at work, one that waits for what the compiler gave, or one that has ended. -/
inductive Chore
  | none
  | parse (ticket : Nat)
  | parsing (ticket : Nat)
  | compiling (ticket : Nat)
  | settling (ticket : Nat)
  | ended (ticket : Nat) (error : Option Value)
  deriving DecidableEq

/-- A passage in flight: its runs of the stages and of the transformers, the continuations of the latter in order,
whether its first part is still under way, what has been asked for and what has come back, how its future has ended,
and the error that came out of its first part. -/
structure Call where
  passage : Passage
  account : Account
  run : Nat
  inner : Option Nat
  tickets : List Nat
  chore : Chore
  starting : Bool
  responses : List Response
  ending : Option Ending
  crash : Option Value

/-- How a passage has ended: by an error that came out of its first part, else as its future has. -/
def Call.outcome (k : Call) : Option Ending :=
  match k.crash with
  | some e => some (.error e)
  | none => k.ending

/-- What there is to tell of a passage: its file, tree and result, what it has asked for and what is parked on its file,
what has come back, and how it has ended. -/
def Call.view (k : Call) : Passage × Account × List Response × Option Ending :=
  (k.passage, k.account, k.responses, k.outcome)

/-- The passages in flight, the list of transformers, and what the library has to do about the last directive, if
anything. No two passages have the same file. -/
structure Traffic where
  runner : Runner
  registry : List Nat
  files : List Value
  calls : Nat → Option Call
  pending : Option Directive

/-- What can happen to a passage in flight: the library does what is due, or something comes from outside. `next` and
`settled` are for the continuation and the future of a transformer, by its place among those that were invoked. -/
inductive Happening
  | attend (future : Nat)
  | parse
  | parsed (tree : Value)
  | compiled (value : Value) (awaitable : Bool)
  | uncompiled (error : Value)
  | resulted (value : Value)
  | broken (error : Value)
  | concluded (future : Nat)
  | park (tree : Value)
  | next (place : Nat) (error : Option Value)
  | settled (place future : Nat) (error : Option Value)
  | returned (value : Value) (awaitable : Bool)
  | raised (error : Value)

/-- What can happen: a passage begins, a transformer is registered, or something happens to a passage. -/
inductive Event
  | begin (call : Nat) (settings value file parked : Value)
  | register (step : Nat)
  | own (call : Nat) (happening : Happening)

/-- Whether an event is about a passage. -/
def Event.isOf (c : Nat) : Event → Bool
  | .begin d .. | .own d _ => d = c
  | .register _ => false

/-- Whether an event can follow the beginning of a passage that is alone: it is about that passage, or a transformer is
registered. -/
def Event.follows (c : Nat) : Event → Bool
  | .begin .. => false
  | .register _ => true
  | .own d _ => d = c

namespace Runner

/-- Whether what the topmost activation waits for is done by the library alone: the stage that has begun the
transformers, or a callback that is a continuation. -/
def awaitsLibrary (r : Runner) : Bool :=
  match r.stack with
  | [] => false
  | a :: _ =>
    match a.wait with
    | .step t => (r.stepOf t).callee = .hook .runStage
    | .failed | .finished => match (r.run a.run).done with | .next _ => true | _ => false
    | .seeking | .settling _ => false

/-- What the library has to do about a directive; nothing if it is the turn of what stands outside. -/
def duty (r : Runner) (d : Directive) : Option Directive :=
  match d with
  | .leave | .fail _ => if r.awaitsLibrary then some d else none
  | .invoke step _ _ => if step.callee.isHook then some d else none
  | .seek .. | .await _ | .call .. => some d

end Runner

namespace Call

/-- Whether a transformer of the passage is being invoked. -/
def isInvoking (k : Call) (r : Runner) : Bool :=
  match r.stack with
  | ⟨i, _, .step _⟩ :: _ => k.inner = some i
  | _ => false

/-- Whether the topmost activation is of a run of the passage. -/
def isActive (k : Call) (r : Runner) : Bool :=
  match r.stack with
  | [] => false
  | a :: _ => a.run = k.run ∨ k.inner = some a.run

/-- What the first completion of a transformer tells. -/
def response? (k : Call) (r : Runner) : Deed → Option Response
  | .completed t e =>
    if (r.ticket t).called ∨ k.inner ≠ some (r.ticket t).run then none
    else some (match e with | none => .gave .null | some e => .failed e)
  | _ => none

/-- What a move tells of the transformers: what stands next, or the first completion of one. -/
def heard (k : Call) (r : Runner) : Move → List Response
  | .found step =>
    match r.stack with
    | [] => []
    | a :: _ => if k.inner = some a.run then [.stood step] else []
  | m => (r.signals m).filterMap (k.response? r)

/-- Notes that a transformer is invoked. -/
def asks (k : Call) (r : Runner) (d : Directive) : Call :=
  match d with
  | .invoke step _ context =>
    match r.stack with
    | ⟨i, _, .step t⟩ :: _ =>
      if step.callee.isHook then k
      else
        let args := Runner.argumentsOf step (r.run i).inputs k.tickets.length
        { k with
          tickets := k.tickets ++ [t]
          account := { k.account with errands := k.account.errands ++ [.transform step args context] } }
    | _ => k
  | _ => k

/-- The first part of a passage ends when nothing of it is on the stack any more; an error may come out of it. -/
def lands (k : Call) (r : Runner) (d : Directive) : Call :=
  match r.stack with
  | _ :: _ => k
  | [] =>
    match d with
    | .fail e => { k with starting := false, crash := if k.starting then some e else k.crash }
    | _ => { k with starting := false }

end Call

namespace Traffic

/-- Nothing is under way. -/
def Idle (g : Traffic) : Prop := g.runner.stack = [] ∧ g.pending = none

instance (g : Traffic) : Decidable g.Idle := inferInstanceAs (Decidable (_ ∧ _))

/-- It is the turn of outside code of a passage: the topmost activation is its own. -/
def Turn (g : Traffic) (k : Call) : Prop := g.pending = none ∧ k.isActive g.runner = true

instance (g : Traffic) (k : Call) : Decidable (g.Turn k) := inferInstanceAs (Decidable (_ ∧ _))

/-- Makes a move of the runner for a passage. -/
def move (g : Traffic) (c : Nat) (k : Call) (m : Move) : Traffic :=
  let p := g.runner.react m
  let k := { k with responses := k.responses ++ k.heard g.runner m }
  let k := (k.asks p.1 p.2.2).lands p.1 p.2.2
  { g with runner := p.1, calls := Function.update g.calls c (some k), pending := p.1.duty p.2.2 }

/-- Changes nothing but what is known of a passage. -/
def put (g : Traffic) (c : Nat) (k : Call) : Traffic := { g with calls := Function.update g.calls c (some k) }

end Traffic

namespace Site
variable (site : Site)

/-- The steps that a ware has: the transformers, or the three stages. -/
def stepsOf (g : Traffic) (ware : Nat) : List Nat := if ware = site.ware then g.registry else [0, 1, 2]

/-- The completion of a passage is reported with an error, or with none: its future ends if it has not yet. -/
def finish (g : Traffic) (c : Nat) (k : Call) (error : Value) : Traffic :=
  match k.ending, Passage.ending? c error with
  | none, some ending => g.move c { k with ending := some ending } (.returned .null false)
  | none, none => g.move c k (.raised (site.rejected c) true)
  | some _, _ => g.move c k (.returned .null false)

/-- Does the stage of a passage that has been invoked with a ticket. What parses begins later; transformers are run if
there are any, with the continuation of the stage for their completion callback; the compiler is called from outside. -/
def stage (g : Traffic) (c : Nat) (k : Call) (t : Nat) : Hook → Option Traffic
  | .parseStage =>
    let k := { k with passage := k.passage.look k.account.slot }
    if k.passage.tree = .null then some (g.move c { k with chore := .parse t } (.returned (.coroutine c) true))
    else some (g.move c k (.returned .null false))
  | .runStage =>
    let tree := chosenTree k.passage.tree k.account.slot
    if tree = .null then some (g.move c k (.raised (site.missing c) true))
    else
      let k := { k with account := { k.account with slot := parkedTree k.passage.tree k.account.slot } }
      if g.registry = [] then some (g.move c { k with responses := k.responses ++ [.stood none] } (.next t none))
      else
        some (g.move c { k with inner := some g.runner.runs.size }
          (.start site.ware [tree, k.passage.file] (.next t)))
  | .compileStage =>
    if chosenTree k.passage.tree k.account.slot = .null then some (g.move c k (.raised (site.missing c) true))
    else
      let account : Account := ⟨k.account.errands ++ [.compile k.passage.file k.passage.settings],
        parkedTree k.passage.tree k.account.slot⟩
      some { g.put c { k with account := account, chore := .compiling t } with pending := none }
  | _ => none

/-- Does what is due for a passage, whose activation is the topmost: looks for the next step, watches an awaitable,
answers for a stage or a callback that is a continuation, calls a callback, or does a stage. -/
def attend (g : Traffic) (c : Nat) (k : Call) (future : Nat) (a : Activation) : Directive → Option Traffic
  | .seek _ _ =>
    some (g.move c k (.found (site.stepsOf g (g.runner.run a.run).ware)[(g.runner.run a.run).index]?))
  | .await _ => some (g.move c k (.watching future))
  | .leave => some (g.move c k (.returned .null false))
  | .fail e => some (g.move c k (.raised e (site.ordinary e)))
  | .call (.next t) args =>
    some (g.move c k (.next t (if args.headD .null = .null then none else some (args.headD .null))))
  | .call (.hook (.finish _ _)) args => some (site.finish g c k (args.headD .null))
  | .call _ _ => none
  | .invoke step _ _ =>
    match step.callee, a.wait with
    | .hook stage, .step t => site.stage g c k t stage
    | _, _ => none

/-- What happens to a passage, if it can. -/
def happen (g : Traffic) (c : Nat) (k : Call) (h : Happening) : Option Traffic :=
  match h, k.chore with
  | .attend future, _ =>
    match g.pending, g.runner.stack with
    | some d, a :: _ => if k.isActive g.runner then site.attend g c k future a d else none
    | _, _ => none
  | .parse, .parse t =>
    if g.Idle then
      let errands := k.account.errands ++ [.parse k.passage.file k.passage.settings]
      some (g.put c { k with chore := .parsing t, account := { k.account with errands := errands } })
    else none
  | .parsed tree, .parsing t =>
    if g.Idle then
      some (g.put c { k with
        chore := .ended t none
        passage := { k.passage with tree := tree }
        account := { k.account with slot := tree }
        responses := k.responses ++ [.gave tree] })
    else none
  | .compiled v awaitable, .compiling t =>
    if g.Turn k then
      if awaitable then some (g.move c { k with chore := .settling t } (.returned (.coroutine c) true))
      else
        some (g.move c { k with
          chore := .none
          passage := { k.passage with result := v }
          responses := k.responses ++ [.gave v] } (.returned .null false))
    else none
  | .uncompiled e, .compiling _ =>
    if g.Turn k ∧ e ≠ .null then
      some (g.move c { k with chore := .none, responses := k.responses ++ [.failed e] } (.raised e (site.ordinary e)))
    else none
  | .resulted v, .settling t =>
    if g.Idle then
      some (g.put c { k with
        chore := .ended t none
        passage := { k.passage with result := v }
        responses := k.responses ++ [.gave v] })
    else none
  | .broken e, .parsing t | .broken e, .settling t =>
    if g.Idle ∧ e ≠ .null then
      some (g.put c { k with chore := .ended t (some e), responses := k.responses ++ [.failed e] })
    else none
  | .concluded future, .ended t error =>
    if g.Idle then some (g.move c { k with chore := .none } (.settled t future error)) else none
  | .park tree, _ =>
    if g.Idle ∨ g.Turn k then
      some (g.put c { k with account := { k.account with slot := tree }, responses := k.responses ++ [.parked tree] })
    else none
  | .next place error, _ =>
    match k.tickets[place]? with
    | some t => if (g.Idle ∨ g.Turn k) ∧ error ≠ some .null then some (g.move c k (.next t error)) else none
    | none => none
  | .settled place future error, _ =>
    match k.tickets[place]? with
    | some t => if g.Idle ∧ error ≠ some .null then some (g.move c k (.settled t future error)) else none
    | none => none
  | .returned v awaitable, _ =>
    if g.Turn k ∧ k.isInvoking g.runner then some (g.move c k (.returned v awaitable)) else none
  | .raised e, _ =>
    if g.Turn k ∧ k.isInvoking g.runner ∧ e ≠ .null then some (g.move c k (.raised e (site.ordinary e))) else none
  | _, _ => none

/-- What an event leads to, if it can come. -/
def step (g : Traffic) : Event → Option Traffic
  | .begin c settings value file parked =>
    if g.Idle ∧ g.calls c = none ∧ file.isFile ∧ file ∉ g.files ∧
        (if value.isFile then file = value else parked = .null) then
      let passage := Passage.ofValue site.processor settings value file
      let k : Call := ⟨passage, ⟨[], parked⟩, g.runner.runs.size, none, [], .none, true, [], none, none⟩
      some (Traffic.move { g with files := file :: g.files } c k (.start 0 [.passage c] (.hook (.finish c c))))
    else none
  | .register step =>
    if g.pending = none ∧ !(site.runner.step step).callee.isHook then some { g with registry := g.registry ++ [step] }
    else none
  | .own c h =>
    match g.calls c with
    | some k => site.happen g c k h
    | none => none

/-- The traffic before any passage. -/
def initial : Traffic := ⟨site.runner, site.registry, [], fun _ => none, none⟩

/-- The traffic after a sequence of events, if they can come. -/
def after (g : Traffic) : List Event → Option Traffic
  | [] => some g
  | e :: es => (site.step g e).bind fun g => after g es

/-- The library does what is due a number of times. -/
def attends (c n : Nat) : List Event := List.replicate n (.own c (.attend 0))

/-- A site with one transformer, which takes its continuation and the context of its ware. -/
def single : Site where
  runner := {
    wares := #[.new .null (.list 0) none, .new (.processor 0) (.list 1) (some (.list 2))]
    steps := passageSteps.push ⟨.function 0, .str "transformer", some 3, some 3, true, []⟩
    runs := #[]
    tickets := #[]
    stack := [] }
  ware := 1
  registry := [3]
  processor := .processor 0
  ordinary := fun _ => true
  missing := fun c => .fault (2 * c)
  rejected := fun c => .fault (2 * c + 1)
  runs_eq := rfl
  tickets_eq := rfl
  stack_eq := rfl
  ware_ne := by decide
  stages_eq := by decide
  plain := by decide
  missing_isFault := fun _ => rfl
  missing_ordinary := fun _ => rfl
  rejected_isFault := fun _ => rfl

end Site
end Treeworks
