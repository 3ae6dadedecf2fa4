import Treeworks.Proofs.Frame.Processing
import Treeworks.Proofs.Slot.Custom

/-! Calls of `run` and `stringify` for a file. Each begins with the tree that it works on, and that beginning needs no
request: either there is no tree, or the call goes on with the tree and a slot that is filled. -/
namespace Treeworks

/-- The tree that is given along with a file: the file stands in its own place, or alone in that of the tree. -/
def givenWith? (f : Nat) (tree file : Value) : Option Value :=
  if file = .file f then some tree else if file = .null ∧ tree = .file f then some .null else none

/-- The tree, the file and the last argument of a call; the last argument may stand in second place, if that can be
seen. -/
def Store.placed (s : Store) (method : String) (args : List Value) : Value × Value × Value :=
  let second := args.getD 1 .null
  let third := args.getD 2 .null
  if (if method = "run" then s.isCallable second else third = .null && !second.isFile) then
    (args.getD 0 .null, .null, second)
  else (args.getD 0 .null, second, third)

/-- The tree that a call is given along with a file, if it is a call for that file. -/
def Store.given? (s : Store) (f : Nat) (method : String) (args : List Value) : Option Value :=
  givenWith? f (s.placed method args).1 (s.placed method args).2.1

namespace Work
variable {α : Type} {m m' : Machine} {f p : Nat} {name : String} {names : Nat → Option String}

/-- What `run` does once it has its tree. -/
def transformed (p tree : Value) (file : Nat) (done : Value) : Work Value := do
  let done := if ← isCallable done then done else .hook .bail
  logTransformers p "processor.run.start"
  let _ ← if (← size (← attr p "ware")) = 0 then serve (.call done [.null, tree, .file file] [])
    else do callMethod (← attr p "ware") "run" [tree, .file file, done]
  return tree

/-- What `stringify` does once it has its tree; the tree itself is not handed on. -/
def compiled (p : Value) (file : Nat) (settings : Value) : Work Value := do
  let step ← openStep (.str "processor.stringify") (.bool true) (.str "debug")
    [("processor", ← attr p "name"), ("stage", .str "stringify"), ("file_path", ← filePath? file)]
  closeStep step (← attempt do
    callMethod (← callMethod p "create_compiler" [.file file, settings]) "compile" [])

/-- What a call does once it has its tree. -/
def goesOn (method : String) (p tree : Value) (file : Nat) (last : Value) : Work Value :=
  if method = "run" then transformed p tree file last else compiled p file last

theorem Gives.attempt {w : Work α} {a : α} (h : w.Gives m a m') : (attempt w).Gives m (.ok a) m' := by
  intro σ
  unfold Work.attempt
  rw [h σ]

theorem Gives.attempt_of_raises {w : Work α} {e : Value} (h : w.Raises m e m') :
    (Work.attempt w).Gives m (.error e) m' := by
  intro σ
  unfold Work.attempt
  rw [h σ]

/-! ### Arguments -/

/-- A failure raises a new error of its kind, without a request. -/
theorem raises_fail (failure : Failure) (m : Machine) : ∃ i m', (fail failure : Work α).Raises m (.fault i) m' ∧
    Aside m m' ∧ (m'.store.fault i).detail = .plain failure.kind := by
  let m₁ : Machine := { m with store := (m.store.addFault (.plain failure.kind) [.str failure.message] .null).2 }
  have hfault : Aside m m₁ := Aside.addFault m _ _ _
  have hnoted := Aside.noteRaised m₁ (.fault m.store.faults.size) (m₁.handling.headD .null)
  refine ⟨m.store.faults.size, _, fun σ => rfl, hfault.trans hnoted, ?_⟩
  rw [Store.detail_noteRaised]
  simp [Store.fault, Fault.new]

/-- An attribute that a value is plainly without is not looked for any further. -/
theorem gives_attrOrNull_of_lacks {v : Value} {name : String} (h : m.store.lacks v name = true) :
    (attrOrNull v name).Gives m .null m := by
  have hnone : (attr? v name).Gives m none m := by
    refine (gives_query _ m).bind fun σ => ?_
    rw [if_pos h]
    rfl
  exact hnone.bind (gives_pure _ _)

/-- A file that was given no type is never taken for a tree. -/
theorem gives_isNode_file (h : m.store.attr? (.file f) "type" = none) : (isNode (.file f)).Gives m false m := by
  have hattr : m.store.attr (.file f) "type" = .error (m.store.lacking (.file f) "type") := by
    unfold Store.attr
    rw [h]
  have hmethod : m.store.method (.file f) "type" = .error (m.store.lacking (.file f) "type") := by
    unfold Store.method
    dsimp only
    rw [h, hattr, if_neg (by decide)]
    rfl
  have hlabel : m.store.methodLabel? (.file f) "type" = none := by
    unfold Store.methodLabel?
    rw [hmethod]
    rfl
  have hlacks : m.store.lacks (.file f) "type" = true := by
    unfold Store.lacks
    dsimp only
    rw [h, hlabel]
    rfl
  refine (gives_query _ m).bind ((gives_attrOrNull_of_lacks hlacks).bind ?_)
  exact gives_truth_of_isScalar rfl m

theorem gives_treeAndFile (h : m.store.Shelved f) {tree file given : Value} (hgiven : givenWith? f tree file = some given) :
    (treeAndFile tree file).Gives m (given, .file f) m := by
  unfold givenWith? at hgiven
  split at hgiven
  · rename_i hfile
    cases hgiven
    subst hfile
    exact fun _ => rfl
  · split at hgiven
    · rename_i htree
      obtain ⟨rfl, rfl⟩ := htree
      cases hgiven
      exact (gives_isNode_file (attr?_of_shelved h rfl (by decide))).bind (gives_pure _ _)
    · cases hgiven

/-! ### Calls -/

/-- A call finds its tree and then goes on. -/
theorem processorMethod_eq {method : String} (hmethod : method = "run" ∨ method = "stringify") {args : List Value}
    (hargs : args.length ≤ 3) (p : Value) (σ : Service) (m : Machine) : processorMethod method p args σ m =
      (do
        let (tree, file) ← treeAndFile (m.store.placed method args).1 (m.store.placed method args).2.1
        let file ← coerceFile file
        let tree ← resolveTree (← attr p "name") tree file
        goesOn method p tree file (m.store.placed method args).2.2 : Work Value) σ m := by
  have hmany : ¬ 3 < args.length := Nat.not_lt.mpr hargs
  rcases hmethod with rfl | rfl
  · have hrun : processorMethod "run" p args =
        runProcessor p (args.getD 0 .null) (args.getD 1 .null) (args.getD 2 .null) := by
      simp [processorMethod, mostArguments, hmany]
    rw [hrun]
    unfold Store.placed runProcessor
    generalize args.getD 1 .null = second
    have hasked : (isCallable second).Gives m (m.store.isCallable second) m := gives_query _ m
    rw [hasked.bind_eq]
    dsimp only
    rw [if_pos rfl]
    cases m.store.isCallable second <;> rfl
  · have hstringify : processorMethod "stringify" p args =
        stringify p (args.getD 0 .null) (args.getD 1 .null) (args.getD 2 .null) := by
      simp [processorMethod, mostArguments, hmany]
    rw [hstringify]
    unfold Store.placed stringify
    generalize args.getD 1 .null = second
    generalize args.getD 2 .null = third
    dsimp only
    rw [if_neg (show ¬ "stringify" = "run" by decide)]
    cases decide (third = .null) && !second.isFile <;> rfl

section
variable {method : String} {args : List Value} {given : Value}
variable (hm : Proper f names m) (hname : names p = some name) (hmethod : method = "run" ∨ method = "stringify")
  (hargs : args.length ≤ 3) (hgiven : m.store.given? f method args = some given)
include hm hname hmethod hargs hgiven

/-- A call for a file comes to the search for its tree without a request. -/
theorem call_eq (σ : Service) : processorMethod method (.processor p) args σ m = (do
    let tree ← resolveTree (.str name) given f
    goesOn method (.processor p) tree f (m.store.placed method args).2.2 : Work Value) σ m := by
  have hfile : (coerceFile (.file f)).Gives m f m := gives_pure f m
  rw [processorMethod_eq hmethod hargs, (gives_treeAndFile hm.shelved hgiven).bind_eq]
  dsimp only
  rw [hfile.bind_eq, (gives_name (hm.named hname)).bind_eq]

/-- A call that has a tree goes on with it: the one that was given, else the one in the slot. The slot is filled if it
was empty. -/
theorem call_begins (hchosen : chosenTree given (m.trees f name) ≠ .null) :
    ∃ m', (∀ σ, processorMethod method (.processor p) args σ m =
        goesOn method (.processor p) (chosenTree given (m.trees f name)) f (m.store.placed method args).2.2 σ m') ∧
      Abides f names m m' ∧ m'.trees f = Function.update (m.trees f) name (parkedTree given (m.trees f name)) := by
  obtain ⟨m', hresolved, hbeside, htrees⟩ := gives_resolve hm.shelved hchosen
  refine ⟨m', fun σ => ?_, Abides.of_beside hm hbeside, htrees⟩
  rw [call_eq hm hname hmethod hargs hgiven, hresolved.bind_eq]

/-- A call without any tree raises an error at once, whatever requests would be answered, and changes no slot. -/
theorem call_raises (hchosen : chosenTree given (m.trees f name) = .null) :
    ∃ e m', (processorMethod method (.processor p) args).Raises m e m' ∧ m'.store.IsMissingTree e ∧
      Abides f names m m' ∧ m'.trees f = m.trees f := by
  obtain ⟨e, m', hraises, hmissing, hbeside, htrees⟩ := raises_resolve hm.shelved hchosen
  refine ⟨e, m', fun σ => ?_, hmissing, Abides.of_beside hm hbeside, htrees⟩
  rw [call_eq hm hname hmethod hargs hgiven, bind_eq, hraises σ]

end

/-! ### What comes afterwards -/

section
variable {D : Discipline}

/-- What is done with the name of a processor and the path of a file keeps to what is allowed if it does so for
scalars. -/
theorem keeps_labelled [D.Knows f names] (hname : names p = some name) {g : Value → Value → Work α}
    (hg : ∀ label path, label.isScalar = true → path.isScalar = true → (g label path).Keeps D) :
    (do g (← attr (.processor p) "name") (← filePath? f)).Keeps D := by
  intro σ hσ m
  refine D.of_proper fun hproper => ?_
  have hm : Proper f names m := Discipline.Knows.proper hproper
  obtain ⟨path, hpath, hread⟩ := reads_filePath hm.shelved
  rw [(gives_name (hm.named hname)).bind_eq, hread.bind_eq]
  exact hg _ _ rfl hpath σ hσ m

theorem keeps_transformed (p tree : Value) (file : Nat) (done : Value) :
    (transformed p tree file done).Keeps D := by
  refine keeps_bind (keeps_isCallable _) fun called => keeps_bind (keeps_logTransformers _ _) fun _ => ?_
  refine keeps_bind (keeps_attr _ _) fun ware => keeps_bind (keeps_size _) fun n => ?_
  split
  · exact keeps_bind (keeps_call _ _ _) fun _ => keeps_pure _
  · exact keeps_bind (keeps_attr _ _) fun ware => keeps_bind (keeps_callMethod _ _ _) fun _ => keeps_pure _

theorem keeps_compiled [D.Knows f names] (hname : names p = some name) (settings : Value) :
    (compiled (.processor p) f settings).Keeps D := by
  refine keeps_labelled hname fun label path hlabel hpath => ?_
  refine keeps_bind (keeps_openStep _ _ _ ?_) fun step => by grind
  simp only [List.mem_cons, List.not_mem_nil, or_false, forall_eq_or_imp, forall_eq]
  exact ⟨hlabel, rfl, hpath⟩

/-- What a call does once it has its tree does nothing to the slots, apart from what it asks for. -/
theorem keeps_goesOn [D.Knows f names] (hname : names p = some name) (method : String) (tree last : Value) :
    (goesOn method (.processor p) tree f last).Keeps D := by
  unfold goesOn
  split
  · exact keeps_transformed _ _ _ _
  · exact keeps_compiled hname _

end

end Work
end Treeworks
