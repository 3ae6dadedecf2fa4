import Treeworks.Passage

/-! Parsing, running and compiling one after the other, as a plain sequence: what is asked for outside, what
becomes of the tree that is parked on the file, and how it ends, from what comes back. -/
namespace Treeworks

/-- What a call asks for outside: that its file is parsed, that a transformer is invoked, or that its tree is
compiled. A continuation among the arguments of a transformer has its place among those of the call for a number. -/
inductive Errand
  | parse (file settings : Value)
  | transform (step : Step) (args : List Value) (context : Option Value)
  | compile (file settings : Value)
  deriving DecidableEq

/-- What comes back: a tree that was parked on the file, what stands next in the list of transformers, or the end of
what was asked for, with a value or with an error. -/
inductive Response
  | parked (tree : Value)
  | stood (step : Option Nat)
  | gave (value : Value)
  | failed (error : Value)
  deriving DecidableEq

/-- What a call has asked for so far, and the tree that is parked on its file. -/
structure Account where
  errands : List Errand
  slot : Value
  deriving DecidableEq

/-- How far a sequence has come: it waits for a response, an error has ended it, or it has a result. -/
inductive Status (α : Type)
  | waits
  | raises (error : Value)
  | gives (value : α)
  deriving DecidableEq

/-- A sequence of stages, which takes responses as it needs them. -/
def Walk (α : Type) : Type := List Response → Account → Status α × List Response × Account

namespace Walk
variable {α β : Type}

/-- Ends with a result. -/
protected def pure (a : α) : Walk α := fun rs acc => (.gives a, rs, acc)

/-- Goes on with the result of the first sequence, if it has one. -/
protected def bind (w : Walk α) (f : α → Walk β) : Walk β := fun rs acc =>
  match w rs acc with
  | (.gives a, rs, acc) => f a rs acc
  | (.raises e, rs, acc) => (.raises e, rs, acc)
  | (.waits, rs, acc) => (.waits, rs, acc)

instance : Monad Walk where
  pure := Walk.pure
  bind := Walk.bind

/-- Ends with an error. -/
def raise (error : Value) : Walk α := fun rs acc => (.raises error, rs, acc)

/-- Asks for something outside. -/
def ask (errand : Errand) : Walk Unit := fun rs acc => (.gives (), rs, { acc with errands := acc.errands ++ [errand] })

/-- The tree that is parked on the file. -/
def slot : Walk Value := fun rs acc => (.gives acc.slot, rs, acc)

/-- Parks a tree on the file. -/
def park (tree : Value) : Walk Unit := fun rs acc => (.gives (), rs, { acc with slot := tree })

/-- Waits for the end of what was asked for. Trees can be parked from outside until then. -/
def result : Walk Value
  | .parked tree :: rs, acc => result rs { acc with slot := tree }
  | .gave v :: rs, acc => (.gives v, rs, acc)
  | .failed e :: rs, acc => (.raises e, rs, acc)
  | rs, acc => (.waits, rs, acc)

end Walk

/-- Whether a value is one of the library's own functions. -/
def Value.isHook : Value → Bool
  | .hook _ => true
  | _ => false

/-- Where passages are made: the wares and steps there are, the ware with the transformers and its list of them, the
processor, which errors handlers of ordinary errors see, and for each passage the errors that the library itself makes
when there is no tree and when completion is reported with what is no error. The first three steps are the stages of a
passage; no transformer is a function of the library's own. -/
structure Site where
  runner : Runner
  ware : Nat
  registry : List Nat
  processor : Value
  ordinary : Value → Bool
  missing : Nat → Value
  rejected : Nat → Value
  runs_eq : runner.runs = #[]
  tickets_eq : runner.tickets = #[]
  stack_eq : runner.stack = []
  ware_ne : ware ≠ 0
  stages_eq : ∀ k < 3, runner.step k = passageSteps.getD k default
  plain : ∀ k ∈ registry, (runner.step k).callee.isHook = false
  missing_isFault : ∀ c, (missing c).isFault = true
  missing_ordinary : ∀ c, ordinary (missing c) = true
  rejected_isFault : ∀ c, (rejected c).isFault = true

/-- Parses a file; its tree is parked in place of any other. -/
def Walk.parse (file settings : Value) : Walk Value := do
  Walk.ask (.parse file settings)
  let tree ← Walk.result
  Walk.park tree
  return tree

/-- The tree of a passage: its own, else the one that is parked on its file, else it is parsed. -/
def Walk.treeOf (p : Passage) : Walk Value := do
  let parked ← Walk.slot
  if chosenTree p.tree parked = .null then Walk.parse p.file p.settings else return chosenTree p.tree parked

namespace Site
variable (site : Site)

/-- The invocation of a transformer over a tree and a file, when others have been invoked before. -/
def errand (k : Nat) (tree file : Value) (before : Nat) : Errand :=
  let step := site.runner.step k
  .transform step (Runner.argumentsOf step [tree, file] before)
    (if step.takesContext then some (site.runner.ware site.ware).context else none)

/-- The tree that a stage works on. An explicit one is parked if none is; there has to be one. -/
def resolve (call : Nat) (given : Value) : Walk Value := do
  let parked ← Walk.slot
  if chosenTree given parked = .null then Walk.raise (site.missing call)
  else
    Walk.park (parkedTree given parked)
    return chosenTree given parked

/-- Invokes what stands in the list of transformers, one after the other, until nothing does. `asked` tells whether one
has been invoked that has not ended yet. -/
def transformers (tree file : Value) : Nat → Bool → Walk Unit
  | n, asked, .parked v :: rs, acc => transformers tree file n asked rs { acc with slot := v }
  | _, false, .stood none :: rs, acc => (.gives (), rs, acc)
  | n, false, .stood (some k) :: rs, acc =>
    transformers tree file n true rs { acc with errands := acc.errands ++ [site.errand k tree file n] }
  | n, true, .gave _ :: rs, acc => transformers tree file (n + 1) false rs acc
  | _, true, .failed e :: rs, acc => (.raises e, rs, acc)
  | _, _, rs, acc => (.waits, rs, acc)

/-- Runs the transformers over a tree. -/
def run (call : Nat) (tree file : Value) : Walk Unit := do
  let tree ← site.resolve call tree
  site.transformers tree file 0 false

/-- Compiles a tree. -/
def stringify (call : Nat) (tree file settings : Value) : Walk Value := do
  let _ ← site.resolve call tree
  Walk.ask (.compile file settings)
  Walk.result

/-- The stages after the tree is there. -/
def runThenStringify (call : Nat) (p : Passage) (tree : Value) : Walk Value := do
  site.run call tree p.file
  site.stringify call tree p.file p.settings

/-- The stages of a passage one after the other. -/
def process (call : Nat) (p : Passage) : Walk Value := do
  let tree ← Walk.treeOf p
  site.runThenStringify call p tree

/-- What is left to be done from a stage on. -/
def stages (call : Nat) (p : Passage) : Nat → Walk Value
  | 0 => site.process call p
  | 1 => site.runThenStringify call p p.tree
  | 2 => site.stringify call p.tree p.file p.settings
  | _ => pure p.result

end Site

/-- What is left to be done when something has been told of its end. -/
def Walk.after (error : Option Value) (w : Walk Value) : Walk Value :=
  match error with
  | none => w
  | some e => Walk.raise e

namespace Walk
variable {α β : Type} {site : Site} {call : Nat} {p : Passage} {rs : List Response} {acc : Account}

theorem bind_def (w : Walk α) (f : α → Walk β) : (w >>= f) rs acc = match w rs acc with
    | (.gives a, rs, acc) => f a rs acc
    | (.raises e, rs, acc) => (.raises e, rs, acc)
    | (.waits, rs, acc) => (.waits, rs, acc) := rfl

/-- A passage that has no tree, and whose file has none, is parsed first. -/
theorem process_of_null (h : (p.look acc.slot).tree = .null) : site.stages call p 0 rs acc =
    (do
      let tree ← Walk.parse (p.look acc.slot).file (p.look acc.slot).settings
      site.runThenStringify call (p.look acc.slot) tree : Walk Value) rs acc := by
  have hchosen : chosenTree p.tree acc.slot = .null := h
  simp only [Site.stages, Site.process, treeOf, bind_def, slot, hchosen, if_true]
  rfl

/-- A passage that has a tree, or whose file has one, is not parsed. -/
theorem process_of_ne_null (h : (p.look acc.slot).tree ≠ .null) :
    site.stages call p 0 rs acc = site.stages call (p.look acc.slot) 1 rs acc := by
  have hchosen : chosenTree p.tree acc.slot ≠ .null := h
  simp only [Site.stages, Site.process, treeOf, bind_def, slot, hchosen, if_false]
  rfl

theorem parse_bind (file settings : Value) (f : Value → Walk Value) :
    (do
      let tree ← Walk.parse file settings
      f tree : Walk Value) rs acc =
    (do
      let tree ← Walk.result
      Walk.park tree
      f tree : Walk Value) rs { acc with errands := acc.errands ++ [.parse file settings] } := by
  simp only [Walk.parse, bind_def, ask]
  generalize Walk.result rs { acc with errands := acc.errands ++ [.parse file settings] } = x
  obtain ⟨status, rs', acc'⟩ := x
  cases status <;> rfl

/-- There is no tree for the second stage. -/
theorem run_of_null (h : chosenTree p.tree acc.slot = .null) :
    site.stages call p 1 rs acc = (.raises (site.missing call), rs, acc) := by
  simp only [Site.stages, Site.runThenStringify, Site.run, Site.resolve, bind_def, slot, h, if_true]
  rfl

/-- The transformers are run over the tree. -/
theorem run_of_ne_null (h : chosenTree p.tree acc.slot ≠ .null) : site.stages call p 1 rs acc =
    (do
      site.transformers (chosenTree p.tree acc.slot) p.file 0 false
      site.stages call p 2 : Walk Value) rs { acc with slot := parkedTree p.tree acc.slot } := by
  simp only [Site.stages, Site.runThenStringify, Site.run, Site.resolve, bind_def, slot, h, if_false]
  rfl

/-- There is no tree for the third stage. -/
theorem stringify_of_null (h : chosenTree p.tree acc.slot = .null) :
    site.stages call p 2 rs acc = (.raises (site.missing call), rs, acc) := by
  simp only [Site.stages, Site.stringify, Site.resolve, bind_def, slot, h, if_true]
  rfl

/-- The tree is compiled. -/
theorem stringify_of_ne_null (h : chosenTree p.tree acc.slot ≠ .null) : site.stages call p 2 rs acc =
    Walk.result rs ⟨acc.errands ++ [.compile p.file p.settings], parkedTree p.tree acc.slot⟩ := by
  simp only [Site.stages, Site.stringify, Site.resolve, bind_def, slot, h, if_false]
  rfl

end Walk
end Treeworks
