import Treeworks.Proofs.Slot.Stages

/-! How trees come into the slots of a file, over whole histories. The library's own calls for the file are done by the
library, all else by others, who may come back with calls in the midst of calls. Two things alone put a tree into a slot:
a parse that finishes with it, and a call of `run` or `stringify` that is given it while the slot is empty. -/
namespace Treeworks

/-- A tree that has come into the slot of a name: by a parse, or as one that was given. -/
structure Filing where
  parsed : Bool
  name : String
  tree : Value

/-- The slots of a file once a tree has come into one. -/
def Filing.enter (trees : String → Value) (e : Filing) : String → Value := Function.update trees e.name e.tree

open Work in
/-- What becomes of the slots from one machine to another, and by what. A tree is given where a call that was given it
goes on with it and found the slot empty; it is parsed where a parse that has closed with it finishes. -/
inductive Filed (f : Nat) (names : Nat → Option String) : Machine → List Filing → Machine → Prop
  | rest {m m' : Machine} (habides : Abides f names m m') (htrees : m'.trees f = m.trees f) : Filed f names m [] m'
  | given {m m' : Machine} {p : Nat} {name method : String} {args : List Value} {tree : Value}
      (hname : names p = some name) (hmethod : method = "run" ∨ method = "stringify")
      (hgiven : m.store.given? f method args = some tree) (htree : tree ≠ .null)
      (hempty : m.trees f name = .null)
      (hcall : ∀ σ, processorMethod method (.processor p) args σ m =
        goesOn method (.processor p) tree f (m.store.placed method args).2.2 σ m')
      (habides : Abides f names m m') (htrees : m'.trees f = Filing.enter (m.trees f) ⟨false, name, tree⟩) :
      Filed f names m [⟨false, name, tree⟩] m'
  | parsed {σ : Service} {m₀ m m' : Machine} {p : Nat} {name : String} {step : OpenStep} {arrived : Except Value Value}
      {tree : Value} (hname : names p = some name) (hclose : closeStep step arrived σ m₀ = (.done tree, m))
      (hparse : finishParse (.processor p) f step arrived σ m₀ = (.done (.finish tree), m'))
      (habides : Abides f names m m') (htrees : m'.trees f = Filing.enter (m.trees f) ⟨true, name, tree⟩) :
      Filed f names m [⟨true, name, tree⟩] m'
  | next {a b c : Machine} {es es' : List Filing} (h : Filed f names a es b) (h' : Filed f names b es' c) :
      Filed f names a (es ++ es') c

namespace Filed
variable {f : Nat} {names : Nat → Option String} {m m' : Machine} {es : List Filing}

/-- The slots are what the trees that came into them have made of them. -/
theorem trees (h : Filed f names m es m') : m'.trees f = es.foldl Filing.enter (m.trees f) := by
  induction h with
  | rest _ htrees => exact htrees
  | given _ _ _ _ _ _ _ htrees => exact htrees
  | parsed _ _ _ _ htrees => exact htrees
  | next _ _ ih ih' => rw [List.foldl_append, ← ih, ih']

/-- A slot that is filled stays as it is until a tree is parsed for its name. -/
theorem kept (h : Filed f names m es m') {name : String} (hfull : m.trees f name ≠ .null)
    (hes : ∀ e ∈ es, e.parsed = true → e.name ≠ name) : m'.trees f name = m.trees f name := by
  induction h with
  | rest _ htrees => rw [htrees]
  | given _ _ _ _ hempty _ _ htrees =>
    rw [htrees, Filing.enter, Function.update_of_ne]
    rintro rfl
    exact hfull hempty
  | parsed _ _ _ _ htrees =>
    rw [htrees, Filing.enter, Function.update_of_ne]
    exact (hes _ (List.mem_singleton.mpr rfl) rfl).symm
  | next _ _ ih ih' =>
    have hfirst := ih hfull fun e he => hes e (List.mem_append_left _ he)
    rw [ih' (hfirst ▸ hfull) fun e he => hes e (List.mem_append_right _ he), hfirst]

end Filed

/-- The slots may change where trees are parsed, or given to an empty slot. -/
def Custom.filing (f : Nat) (names : Nat → Option String) : Custom f names where
  allows m m' := ∃ es, Filed f names m es m'
  trans := fun ⟨_, h⟩ ⟨_, h'⟩ => ⟨_, h.next h'⟩
  steady habides htrees := ⟨[], .rest habides htrees⟩

/-- Whether a request is for the library's own code about a file: calls of processors that have names, the stages of
their parses and passages, and runs of steps. -/
def Request.isOurs (f : Nat) (names : Nat → Option String) (m : Machine) : Request → Bool
  | .invoke (.inborn type method (.processor p)) args => m.store.isFamily type &&
    if method = "run" || method = "stringify" then
      (names p).isSome && decide (args.length ≤ 3) && (m.store.given? f method args).isSome
    else ["use", "attach", "parse", "process", "create_parser", "create_compiler"].contains method
  | .invoke (.ware _ method) _ => decide (method = "run")
  | .call (.hook .parseStage) [.passage c] [] =>
    concerns f names (m.store.passages.getD c default).processor (m.store.passages.getD c default).file
  | .call (.hook .parseStage) _ _ => false
  | .call (.hook _) _ _ | .call (.next _) _ _ => true
  | .resume i _ => (m.coroutine i).stage.isOurs f names
  | _ => false

namespace Work
variable {m : Machine} {f p : Nat} {name : String} {names : Nat → Option String}

/-- The end of a parse changes a slot just when it finishes with a tree. -/
theorem keeps_finishParse (hname : names p = some name) (step : OpenStep) (arrived : Except Value Value) :
    (finishParse (.processor p) f step arrived).Keeps (Custom.filing f names).discipline := by
  intro σ hσ m hm
  obtain ⟨habides, es, hfiled⟩ := keeps_closeStep (D := (Custom.filing f names).discipline) step arrived σ hσ m hm
  by_cases hclosed : ∃ tree, (closeStep step arrived σ m).1 = .done tree
  · obtain ⟨tree, hclosed⟩ := hclosed
    have hclose : closeStep step arrived σ m = (.done tree, (closeStep step arrived σ m).2) := Prod.ext hclosed rfl
    obtain ⟨m', hparse, habides', htrees⟩ := finishParse_closed hσ hm hname hclose
    rw [hparse]
    exact ⟨habides.trans habides', _, hfiled.next (.parsed hname hclose hparse habides' htrees)⟩
  · rw [(finishParse_unclosed (.processor p) f (not_exists.mp hclosed)).1]
    exact ⟨habides, es, hfiled⟩

/-- A call changes a slot just when it is given a tree and the slot is empty. -/
theorem holds_call {σ : Service} (hσ : ∀ r m, (Custom.filing f names).discipline.holds m (σ r m).2)
    (hname : names p = some name) {method : String} (hmethod : method = "run" ∨ method = "stringify")
    {args : List Value} (hargs : args.length ≤ 3) {given : Value} (hgiven : m.store.given? f method args = some given) :
    (Custom.filing f names).discipline.holds m (processorMethod method (.processor p) args σ m).2 := by
  intro hm
  by_cases hchosen : chosenTree given (m.trees f name) = .null
  · obtain ⟨e, m', hraises, -, habides, htrees⟩ := call_raises hm hname hmethod hargs hgiven hchosen
    rw [hraises σ]
    exact ⟨habides, [], .rest habides htrees⟩
  · obtain ⟨m', hcall, habides, htrees⟩ := call_begins hm hname hmethod hargs hgiven hchosen
    obtain ⟨habides', es, hrest⟩ := keeps_goesOn hname method _ _ σ hσ m' habides.proper
    rw [hcall σ]
    refine ⟨habides.trans habides', ?_⟩
    by_cases hfills : given ≠ .null ∧ m.trees f name = .null
    · obtain ⟨hgivenNull, hempty⟩ := hfills
      rw [chosenTree, if_neg hgivenNull] at hcall
      rw [parkedTree, if_pos hempty] at htrees
      exact ⟨_, (Filed.given hname hmethod hgiven hgivenNull hempty hcall habides htrees).next hrest⟩
    · have hparked : parkedTree given (m.trees f name) = m.trees f name := by
        unfold parkedTree
        split
        · rename_i hempty
          rw [hempty]
          exact not_not.mp fun hne => hfills ⟨hne, hempty⟩
        · rfl
      rw [hparked, Function.update_eq_self] at htrees
      exact ⟨_, (Filed.rest habides htrees).next hrest⟩

theorem otherMethods_cases {method : String}
    (h : ["use", "attach", "parse", "process", "create_parser", "create_compiler"].contains method = true) :
    method = "use" ∨ method = "attach" ∨ method = "parse" ∨ method = "process" ∨ method = "create_parser" ∨
      method = "create_compiler" := by
  simpa only [List.contains_cons, List.contains_nil, Bool.or_false, Bool.or_eq_true, beq_iff_eq] using h

/-- All other methods keep to every discipline; parses and passages only begin here. -/
theorem keeps_otherMethods {D : Discipline} {method : String}
    (hmethod : ["use", "attach", "parse", "process", "create_parser", "create_compiler"].contains method = true)
    (p : Value) (args : List Value) : (processorMethod method p args).Keeps D := by
  have hextend : (extendProcessor p method args).Keeps D := by
    unfold extendProcessor
    split
    · exact keeps_bind (keeps_fail _) fun _ => by grind
    · grind
  unfold processorMethod
  split
  · exact hextend
  · split
    · exact keeps_fail _
    · rcases otherMethods_cases hmethod with rfl | rfl | rfl | rfl | rfl | rfl
      · exact keeps_failLacking _ _
      · exact keeps_failLacking _ _
      · exact keeps_newCoroutine _
      · exact keeps_newCoroutine _
      · exact keeps_createWorker _ _ _ _
      · exact keeps_createWorker _ _ _ _

theorem keeps_callNext {D : Discipline} (hrun : ∀ (m : Machine) (r : Runner),
    D.holds m { m with store := { m.store with runner := r } }) (ticket : Nat) (error : Value) :
    (callNext ticket error).Keeps D :=
  keeps_bind (keeps_react hrun _) fun d => keeps_follow hrun _ _ d

/-- What the library does itself changes the slots by parses and given trees alone, if what it asks for does. -/
theorem holds_isOurs {σ : Service} (hσ : ∀ r m, (Custom.filing f names).discipline.holds m (σ r m).2) {r : Request}
    (hours : r.isOurs f names m = true) : (Custom.filing f names).discipline.holds m (r.handle σ m).2 := by
  unfold Request.isOurs at hours
  split at hours
  · rename_i type method p args
    obtain ⟨htype, hrest⟩ := Bool.and_eq_true_iff.mp hours
    split at hrest
    · rename_i hmethod
      simp only [Bool.or_eq_true, decide_eq_true_eq] at hmethod
      obtain ⟨hrest, hgiven⟩ := Bool.and_eq_true_iff.mp hrest
      obtain ⟨hname, hargs⟩ := Bool.and_eq_true_iff.mp hrest
      obtain ⟨name, hname⟩ := Option.isSome_iff_exists.mp hname
      obtain ⟨given, hgiven⟩ := Option.isSome_iff_exists.mp hgiven
      have hcall : method ∉ ["__repr__", "default", "ensure"] := by
        rcases hmethod with rfl | rfl <;> decide
      rw [handle_call htype hcall]
      exact holds_call hσ hname hmethod (of_decide_eq_true hargs) hgiven
    · have hcall : method ∉ ["__repr__", "default", "ensure"] := by
        rcases otherMethods_cases hrest with rfl | rfl | rfl | rfl | rfl | rfl <;> decide
      rw [handle_call htype hcall]
      exact keeps_otherMethods hrest _ _ σ hσ m
  · rename_i ware method args
    obtain rfl := of_decide_eq_true hours
    have hrun : (wareMethod ware "run" args).Keeps (Custom.filing f names).discipline :=
      keeps_bind (keeps_runWare holds_runner ware args) fun _ => keeps_pure _
    exact hrun σ hσ m
  · rename_i c
    obtain ⟨p, name, hprocessor, hfile, hname⟩ := of_concerns hours
    show (Custom.filing f names).discipline.holds m (callHook .parseStage [.passage c] [] σ m).2
    rw [callHook_parseStage]
    exact holds_parseStage hσ hname hprocessor hfile
  · cases hours
  · rename_i h args keywords _ hlooks
    exact keeps_callHook (fun h => hlooks h) args keywords σ hσ m
  · rename_i ticket args keywords
    refine keeps_bind (keeps_boundArguments _ _ _ _) (fun given => ?_) σ hσ m
    exact keeps_bind (keeps_callNext holds_runner _ _) fun _ => keeps_pure _
  · exact holds_resumeCoroutine (closed_isOurs keeps_finishParse) hσ hours _
  · cases hours

end Work
end Treeworks
