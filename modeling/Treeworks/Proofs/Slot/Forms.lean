import Treeworks.Proofs.Slot.Calls

/-! The forms in which `run` and `stringify` are called. The arguments are settled first: which of them is the tree,
which the file, and which comes last. Two calls that settle on the same do the same. -/
namespace Treeworks

/-- Whether a file can be made of a value: of nothing, a file, a text, or a mapping. -/
def Store.fits (s : Store) (v : Value) : Bool := v = .null || v.isFile || v.isText || (s.mapping? v).isSome

/-- Whether a value is what a file is made of: a text or a mapping. -/
def Store.IsOptions (s : Store) (v : Value) : Prop := v.isText = true ∨ (s.mapping? v).isSome = true

/-- Whether a value is a text, or a mapping without a type, and nobody has to be asked what its contents are. -/
def Store.IsPlainOptions (s : Store) (v : Value) : Prop :=
  v.isText = true ∨ ∃ entries, s.mapping? v = some entries ∧ entries.named "type" = .null ∧
    (entries.named "contents").isScalar = true

/-- Whether a file has no type, as none has that was not given one. -/
def Store.Untyped (s : Store) (f : Nat) : Prop := s.attr? (.file f) "type" = none

theorem Store.untyped_of_attrs {s : Store} {f : Nat} (h : (s.file f).attrs = []) : s.Untyped f := by
  have hown : s.ownAttr? (.file f) "type" = none := by
    unfold ownAttr?
    dsimp only
    rw [h]
    rfl
  unfold Untyped attr?
  rw [hown]
  rfl

namespace Work
variable {m m' m'' : Machine} {σ : Service} {f : Nat} {method : String} {p tree file last x : Value}

/-- What a call works on whose tree and file stand in their places. -/
def settledOn (p tree file : Value) : Work (Value × Nat) := do
  let file ← coerceFile file
  return (← resolveTree (← attr p "name") tree file, file)

/-- What a call works on: its tree and its file. -/
def settled (p tree file : Value) : Work (Value × Nat) := do
  let (tree, file) ← treeAndFile tree file
  settledOn p tree file

/-- A call settles on its tree and its file, and goes on with them. -/
theorem call_settles (hmethod : method = "run" ∨ method = "stringify") {args : List Value} (hargs : args.length ≤ 3)
    (p : Value) (σ : Service) (m : Machine) : processorMethod method p args σ m =
      (settled p (m.store.placed method args).1 (m.store.placed method args).2.1 >>= fun found =>
        goesOn method p found.1 found.2 (m.store.placed method args).2.2) σ m := by
  rw [processorMethod_eq hmethod hargs]
  unfold settled settledOn
  simp only [bind_assoc]
  rfl

/-- A call whose arguments are in their places, with a file that is one. -/
theorem call_file (hmethod : method = "run" ∨ method = "stringify") (p tree last : Value) (f : Nat) (σ : Service)
    (m : Machine) : processorMethod method p [tree, .file f, last] σ m =
      (settledOn p tree (.file f) >>= fun found => goesOn method p found.1 found.2 last) σ m := by
  have hplaced : m.store.placed method [tree, .file f, last] = (tree, .file f, last) := by
    rcases hmethod with rfl | rfl
    · rfl
    · simp [Store.placed, Value.isFile]
  rw [call_settles hmethod (by simp), hplaced]
  rfl

/-! ### A file in the place of the tree -/

/-- A file that stands alone is the file. -/
theorem settled_file (hf : m.store.Untyped f) (p : Value) (σ : Service) :
    settled p (.file f) .null σ m = settledOn p .null (.file f) σ m := by
  have halone : (treeAndFile (.file f) .null).Gives m (.null, .file f) m :=
    (gives_isNode_file hf).bind (gives_pure _ _)
  unfold settled
  rw [halone.bind_eq]

/-! ### A value that a file is made of -/

theorem newFile_done {v : Value} (h : newFile x σ m = (.done v, m')) : ∃ f, v = .file f := by
  have hmade (c : Value) {w : Value} {a b : Machine} (h : make (fun s => s.emptyFile c) σ a = (.done w, b)) :
      ∃ f, w = .file f := by
    cases h
    exact ⟨_, rfl⟩
  unfold newFile at h
  split at h
  · exact hmade _ h
  · exact hmade _ h
  · exact hmade _ h
  · exact hmade _ h
  · obtain ⟨_, _, -, h⟩ := of_bind_done h
    obtain ⟨_, _, -, h⟩ := of_bind_done h
    obtain ⟨_, _, -, h⟩ := of_bind_done h
    obtain ⟨_, _, -, h⟩ := of_bind_done h
    cases h
    exact ⟨_, rfl⟩
  · obtain ⟨entries, m₁, -, h⟩ := of_bind_done h
    split at h
    · obtain ⟨_, _, -, h⟩ := of_bind_done h
      cases h
    · obtain ⟨new, m₂, hnew, h⟩ := of_bind_done h
      obtain ⟨_, _, -, h⟩ := of_bind_done h
      obtain ⟨_, _, -, h⟩ := of_bind_done h
      cases h
      exact hmade _ hnew

theorem coerceFile_of_not_file (hx : x.isFile = false) :
    coerceFile x = newFile x >>= fun v => pure (Store.fileIndex v) := by
  cases x <;> first
    | rfl
    | cases hx

/-- A value in the place of the file has a file made of it first. -/
theorem settledOn_made (hx : x.isFile = false) (p tree : Value) :
    settledOn p tree x = newFile x >>= fun v => settledOn p tree v := by
  funext σ m
  unfold settledOn
  rw [coerceFile_of_not_file hx, bind_assoc, bind_eq, bind_eq]
  rcases hnew : newFile x σ m with ⟨v | e | _, m'⟩
  · obtain ⟨f, rfl⟩ := newFile_done hnew
    rfl
  · rfl
  · rfl

/-- A text is no tree, and telling so takes nobody's help. -/
theorem gives_isNode_text (hx : x.isText = true) (m : Machine) : (isNode x).Gives m false m := by
  have hlacks : m.store.lacks x "type" = true ∧ m.store.mapping? x = none ∧ x ≠ .null := by
    cases x <;> first
      | exact absurd hx Bool.false_ne_true
      | exact ⟨rfl, rfl, nofun⟩
  have hprobe : (do truth (← attrOrNull x "type") : Work Bool).Gives m false m :=
    (gives_attrOrNull_of_lacks hlacks.1).bind (gives_truth_of_isScalar rfl m)
  unfold isNode
  rw [if_neg hlacks.2.2]
  refine (gives_query _ m).bind ?_
  rw [hlacks.2.1]
  exact hprobe

/-- Nor is a mapping without a type. -/
theorem gives_isNode_mapping {entries : Entries} (hx : m.store.mapping? x = some entries)
    (htype : entries.named "type" = .null) : (isNode x).Gives m false m := by
  have hnull : x ≠ .null := by
    rintro rfl
    cases hx
  unfold isNode
  rw [if_neg hnull]
  refine (gives_query _ m).bind ?_
  rw [hx]
  dsimp only
  rw [htype]
  exact gives_truth_of_isScalar rfl m

theorem gives_isNode_options (hx : m.store.IsPlainOptions x) : (isNode x).Gives m false m := by
  rcases hx with htext | ⟨entries, hentries, htype, -⟩
  · exact gives_isNode_text htext m
  · exact gives_isNode_mapping hentries htype

/-- Plain options make a file that has no type, and what can be called stays so. -/
theorem gives_newFile (hx : m.store.IsPlainOptions x) : ∃ f m', (newFile x).Gives m (.file f) m' ∧ m'.store.Untyped f ∧
    ∀ d, m'.store.isCallable d = m.store.isCallable d := by
  rcases hx with htext | ⟨entries, hentries, -, hcontents⟩
  · have hmade : newFile x = make fun s => s.emptyFile x := by
      cases x <;> first
        | rfl
        | cases htext
    rw [hmade]
    refine ⟨_, _, fun σ => rfl, Store.untyped_of_attrs ?_, fun d => ?_⟩
    · simp [Store.file]
    · cases d <;> rfl
  · let m₁ : Machine := { m with store := (m.store.emptyFile .null).2 }
    have hcontents' := gives_trueOr_of_isScalar hcontents (.str "") m₁
    generalize (if m₁.store.truthy (entries.named "contents") then entries.named "contents" else .str "") = contents
      at hcontents'
    let filled (c : Carrier) : Carrier :=
      { c with
        contents := contents
        filename := entries.named "filename"
        directory := entries.named "directory"
        extension := entries.named "extension" }
    obtain ⟨empty, hattrs, hfiles⟩ : ∃ c : Carrier, c.attrs = [] ∧ m₁.store.files = m.store.files.push c := ⟨_, rfl, rfl⟩
    have hfile : (m₁.store.updateFile m.store.files.size filled).file m.store.files.size = filled empty := by
      simp [Store.file, Store.updateFile, hfiles, Array.getElem_modify]
    refine ⟨m.store.files.size, { m₁ with store := m₁.store.updateFile m.store.files.size filled }, ?_,
      Store.untyped_of_attrs (hfile ▸ hattrs), fun d => by cases d <;> rfl⟩
    cases x <;> first
      | refine (gives_query _ m).bind ?_
        rw [hentries]
        exact Gives.bind (fun _ => rfl) (hcontents'.bind fun _ => rfl)
      | cases hentries

/-! ### A value that no file can be made of -/

/-- A value that no file can be made of fails a call with an error of its type, without a request and without a change
to what was there. -/
theorem raises_settledOn (hx : m.store.fits x = false) (p tree : Value) :
    ∃ i m', (settledOn p tree x).Raises m (.fault i) m' ∧ Aside m m' ∧ (m'.store.fault i).detail = .plain .type := by
  simp only [Store.fits, Bool.or_eq_false_iff, decide_eq_false_iff_not, Option.isSome_eq_false_iff,
    Option.isNone_iff_eq_none] at hx
  obtain ⟨⟨⟨hnull, hfile⟩, htext⟩, hmapping⟩ := hx
  obtain ⟨i, m', hfails, haside, hdetail⟩ := raises_fail (α := Value) (.notFile (m.store.typeName x)) m
  refine ⟨i, m', ?_, haside, hdetail⟩
  have hnew : (newFile x).Raises m (.fault i) m' := by
    unfold newFile
    split
    · exact absurd rfl hnull
    · cases htext
    · cases htext
    · cases htext
    · cases hfile
    · refine (gives_query _ m).raises_bind ?_
      rw [hmapping]
      exact (gives_query _ m).raises_bind hfails
  rw [settledOn_made hfile]
  exact hnew.bind _

/-! ### The tree that is settled on -/

/-- Whether a tree is the one that a call works on: the one that it is given or, without one, the one that lies in the
slot of its file. -/
def Chosen (p tree file : Value) (σ : Service) (m : Machine) (chosen : Value) : Prop :=
  ∃ given x f label bag parked m₁ m₂ m₃ m₄ m₅, treeAndFile tree file σ m = (.done (given, x), m₁) ∧
    coerceFile x σ m₁ = (.done f, m₂) ∧ attr p "name" σ m₂ = (.done label, m₃) ∧
    bagOf f label σ m₃ = (.done bag, m₄) ∧ treeIn bag σ m₄ = (.done parked, m₅) ∧ chosen = chosenTree given parked

theorem settled_done {found : Value × Nat} (h : settled p tree file σ m = (.done found, m')) :
    Chosen p tree file σ m found.1 := by
  obtain ⟨⟨given, x⟩, m₁, htaken, h⟩ := of_bind_done h
  obtain ⟨f, m₂, hfile, h⟩ := of_bind_done h
  obtain ⟨label, m₃, hlabel, h⟩ := of_bind_done h
  obtain ⟨chosen, m₆, h, hfound⟩ := of_bind_done h
  obtain ⟨bag, m₄, hbag, h⟩ := of_bind_done h
  obtain ⟨parked, m₅, hparked, h⟩ := of_bind_done h
  refine ⟨given, x, f, label, bag, parked, m₁, m₂, m₃, m₄, m₅, htaken, hfile, hlabel, hbag, hparked, ?_⟩
  cases hfound
  dsimp only at h
  split at h
  · obtain ⟨_, _, -, h⟩ := of_bind_done h
    obtain ⟨_, _, -, h⟩ := of_bind_done h
    cases h
  · split at h
    · obtain ⟨_, _, -, h⟩ := of_bind_done h
      cases h
      rfl
    · cases h
      rfl

/-- What `run` gives is the tree that it works on. -/
theorem transformed_done {v : Value} (h : transformed p tree f last σ m = (.done v, m')) : v = tree := by
  obtain ⟨called, _, -, h⟩ := of_bind_done h
  obtain ⟨_, _, -, h⟩ := of_bind_done h
  obtain ⟨ware, _, -, h⟩ := of_bind_done h
  obtain ⟨count, _, -, h⟩ := of_bind_done h
  dsimp only at h
  split at h
  · obtain ⟨_, _, -, h⟩ := of_bind_done h
    cases h
    rfl
  · obtain ⟨_, _, -, h⟩ := of_bind_done h
    obtain ⟨_, _, -, h⟩ := of_bind_done h
    cases h
    rfl

/-! ### Forms of calls -/

/-- What is not given is null. -/
theorem call_pair (hmethod : method = "run" ∨ method = "stringify") (p tree file : Value) :
    processorMethod method p [tree, file] = processorMethod method p [tree, file, .null] := by
  rcases hmethod with rfl | rfl <;> simp [processorMethod, mostArguments]

theorem call_single (hmethod : method = "run" ∨ method = "stringify") (p tree : Value) :
    processorMethod method p [tree] = processorMethod method p [tree, .null, .null] := by
  rcases hmethod with rfl | rfl <;> simp [processorMethod, mostArguments]

/-- Two calls that settle on the same, and have the same in the last place, do the same. -/
theorem call_congr (hmethod : method = "run" ∨ method = "stringify") {args args' : List Value}
    (hargs : args.length ≤ 3) (hargs' : args'.length ≤ 3)
    (hsettled : settled p (m.store.placed method args).1 (m.store.placed method args).2.1 σ m =
      settled p (m.store.placed method args').1 (m.store.placed method args').2.1 σ m)
    (hlast : (m.store.placed method args).2.2 = (m.store.placed method args').2.2) :
    processorMethod method p args σ m = processorMethod method p args' σ m := by
  rw [call_settles hmethod hargs, call_settles hmethod hargs', bind_eq, bind_eq, hsettled, hlast]

theorem placed_run_callable (h : m.store.isCallable last = true) (tree : Value) (rest : List Value) :
    m.store.placed "run" (tree :: last :: rest) = (tree, .null, last) := by
  simp [Store.placed, h]

theorem placed_run (h : m.store.isCallable file = false) (tree last : Value) :
    m.store.placed "run" [tree, file, last] = (tree, file, last) := by
  simp [Store.placed, h]

theorem placed_stringify_settings (h : last.isFile = false) (tree : Value) :
    m.store.placed "stringify" [tree, last] = (tree, .null, last) := by
  simp [Store.placed, h]

theorem placed_stringify (tree last : Value) : m.store.placed "stringify" [tree, .null, last] = (tree, .null, last) := by
  by_cases h : last = .null <;> simp [Store.placed, h, Value.isFile]

/-- A file that stands alone in a call stands in its place. -/
theorem call_alone (hmethod : method = "run" ∨ method = "stringify") (hf : m.store.Untyped f) {args : List Value}
    (hargs : args.length ≤ 3) (hplaced : m.store.placed method args = (.file f, .null, last)) :
    processorMethod method p args σ m = processorMethod method p [.null, .file f, last] σ m := by
  rw [call_settles hmethod hargs, hplaced, call_file hmethod, bind_eq, settled_file hf, ← bind_eq]

/-- A call of `run` that settles on options has a file made of them before it does anything else. -/
theorem run_made (hx : x.isFile = false) {args : List Value} (hargs : args.length ≤ 3) {first second : Value}
    (hplaced : m.store.placed "run" args = (first, second, last))
    (hsettled : settled p first second σ m = settledOn p tree x σ m') :
    processorMethod "run" p args σ m = (newFile x >>= fun file => processorMethod "run" p [tree, file, last]) σ m' := by
  rw [call_settles (.inl rfl) hargs, hplaced, bind_eq, hsettled, settledOn_made hx, bind_eq, bind_eq]
  rcases hnew : newFile x σ m' with ⟨v | e | _, m''⟩
  · obtain ⟨f, rfl⟩ := newFile_done hnew
    dsimp only
    rw [call_file (.inl rfl), bind_eq]
  · rfl
  · rfl

theorem isFile_of_isOptions {s : Store} (hx : s.IsOptions x) : x.isFile = false ∧ x ≠ .null ∧ s.isCallable x = false := by
  rcases hx with hx | hx <;> cases x <;> first
    | exact absurd hx Bool.false_ne_true
    | exact ⟨rfl, nofun, rfl⟩

/-- Options that are found to be no tree stand for the file that is made of them. -/
theorem settled_options (hnode : isNode x σ m = (.done false, m')) (hnull : x ≠ .null) (p : Value) :
    settled p x .null σ m = settledOn p .null x σ m' := by
  have htaken : treeAndFile x .null σ m = (.done (.null, x), m') := by
    unfold treeAndFile
    rw [if_neg (by simp [hnull]), bind_eq, hnode]
    rfl
  unfold settled
  rw [bind_eq, htaken]

/-- Options in any place of a call of `run` stand for the file that is made of them. -/
theorem run_options (hx : m.store.IsOptions x) (p : Value) (σ : Service) :
    (∀ t d, processorMethod "run" p [t, x, d] σ m =
      (newFile x >>= fun file => processorMethod "run" p [t, file, d]) σ m) ∧
    ∀ m', isNode x σ m = (.done false, m') →
      processorMethod "run" p [x] σ m = (newFile x >>= fun file => processorMethod "run" p [.null, file]) σ m' ∧
      ∀ d, m.store.isCallable d = true → processorMethod "run" p [x, d] σ m =
        (newFile x >>= fun file => processorMethod "run" p [.null, file, d]) σ m' := by
  obtain ⟨hfile, hnull, hcallable⟩ := isFile_of_isOptions hx
  refine ⟨fun t d => ?_, fun m' hnode => ⟨?_, fun d hd => ?_⟩⟩
  · refine run_made hfile (by simp) (placed_run hcallable t d) ?_
    unfold settled treeAndFile
    rw [if_pos (by simp [hnull])]
    rfl
  · have hplaced : m.store.placed "run" [x] = (x, .null, .null) := rfl
    have hcall := run_made hfile (by simp) hplaced (settled_options hnode hnull p)
    simpa only [← call_pair (.inl rfl)] using hcall
  · exact run_made hfile (by simp) (placed_run_callable hd x []) (settled_options hnode hnull p)

/-- A file alone, or with what comes last, stands in its place. -/
theorem run_alone (hf : m.store.Untyped f) (p : Value) (σ : Service) :
    processorMethod "run" p [.file f] σ m = processorMethod "run" p [.null, .file f] σ m ∧
    ∀ d, m.store.isCallable d = true →
      processorMethod "run" p [.file f, d] σ m = processorMethod "run" p [.null, .file f, d] σ m := by
  refine ⟨?_, fun d hd => call_alone (.inl rfl) hf (by simp) (placed_run_callable hd _ _)⟩
  have hplaced : m.store.placed "run" [.file f] = (.file f, .null, .null) := rfl
  rw [call_alone (.inl rfl) hf (by simp) hplaced, call_pair (.inl rfl)]

theorem stringify_alone (hf : m.store.Untyped f) (p : Value) (σ : Service) :
    processorMethod "stringify" p [.file f] σ m = processorMethod "stringify" p [.null, .file f] σ m ∧
    ∀ s, s.isFile = false →
      processorMethod "stringify" p [.file f, s] σ m = processorMethod "stringify" p [.null, .file f, s] σ m := by
  refine ⟨?_, fun s hs => call_alone (.inr rfl) hf (by simp) (placed_stringify_settings hs _)⟩
  have hplaced : m.store.placed "stringify" [.file f] = (.file f, .null, .null) := rfl
  rw [call_alone (.inr rfl) hf (by simp) hplaced, call_pair (.inr rfl)]

/-- Plain options do the same as the file that is made of them. -/
theorem run_plainOptions (hx : m.store.IsPlainOptions x) (p : Value) (σ : Service) : ∃ f m',
    (newFile x).Gives m (.file f) m' ∧ processorMethod "run" p [x] σ m = processorMethod "run" p [.file f] σ m' ∧
    (∀ d, m.store.isCallable d = true →
      processorMethod "run" p [x, d] σ m = processorMethod "run" p [.file f, d] σ m') ∧
    ∀ t d, processorMethod "run" p [t, x, d] σ m = processorMethod "run" p [t, .file f, d] σ m' := by
  have hoptions : m.store.IsOptions x := hx.imp_right fun ⟨entries, hentries, _⟩ => by rw [hentries]; rfl
  obtain ⟨f, m', hnew, hf, hcalled⟩ := gives_newFile hx
  obtain ⟨hthird, hprobed⟩ := run_options hoptions p σ
  obtain ⟨hfirst, hsecond⟩ := hprobed m (gives_isNode_options hx σ)
  obtain ⟨hfile, hfile'⟩ := run_alone hf p σ
  refine ⟨f, m', hnew, ?_, fun d hd => ?_, fun t d => ?_⟩
  · rw [hfirst, hnew.bind_eq, hfile]
  · rw [hsecond d hd, hnew.bind_eq, hfile' d ((hcalled d).trans hd)]
  · rw [hthird t d, hnew.bind_eq]

/-- A call that settles on a value that no file can be made of fails, with no more requests. -/
theorem call_fails (hmethod : method = "run" ∨ method = "stringify") {args : List Value} (hargs : args.length ≤ 3)
    {m₁ : Machine} (htaken : treeAndFile (m.store.placed method args).1 (m.store.placed method args).2.1 σ m =
      (.done (tree, x), m₁)) (hx : m₁.store.fits x = false) (p : Value) :
    ∃ i m₂, processorMethod method p args σ m = (.raised (.fault i), m₂) ∧ Aside m₁ m₂ ∧
      (m₂.store.fault i).detail = .plain .type := by
  obtain ⟨i, m₂, hfails, haside, hdetail⟩ := raises_settledOn hx p tree
  refine ⟨i, m₂, ?_, haside, hdetail⟩
  rw [call_settles hmethod hargs]
  unfold settled
  rw [bind_assoc, bind_eq, htaken]
  exact hfails.bind _ σ

/-- Every form in which `run` and `stringify` are called comes down to one with the arguments in their places: it does
the same to the same machine, whoever answers its requests. Options stand for the file that is made of them. What `run`
gives is the tree that it works on. A value that no file can be made of fails a call as soon as it is known not to be a
tree. -/
theorem forms_of_calls (p : Value) (σ : Service) (m : Machine) :
    let run := processorMethod "run" p
    let stringify := processorMethod "stringify" p
    (∀ f, m.store.Untyped f →
      (run [.file f] σ m = run [.null, .file f] σ m ∧
        ∀ d, m.store.isCallable d = true → run [.file f, d] σ m = run [.null, .file f, d] σ m) ∧
      stringify [.file f] σ m = stringify [.null, .file f] σ m ∧
        ∀ s, s.isFile = false → stringify [.file f, s] σ m = stringify [.null, .file f, s] σ m) ∧
    (∀ t d, m.store.isCallable d = true → run [t, d] σ m = run [t, .null, d] σ m) ∧
    (∀ t s, s.isFile = false → stringify [t, s] σ m = stringify [t, .null, s] σ m) ∧
    (∀ x, m.store.IsOptions x →
      (∀ t d, run [t, x, d] σ m = (newFile x >>= fun file => run [t, file, d]) σ m) ∧
      ∀ m', isNode x σ m = (.done false, m') →
        run [x] σ m = (newFile x >>= fun file => run [.null, file]) σ m' ∧
        ∀ d, m.store.isCallable d = true → run [x, d] σ m = (newFile x >>= fun file => run [.null, file, d]) σ m') ∧
    (∀ x, m.store.IsPlainOptions x → ∃ f m', (newFile x).Gives m (.file f) m' ∧ run [x] σ m = run [.file f] σ m' ∧
      (∀ d, m.store.isCallable d = true → run [x, d] σ m = run [.file f, d] σ m') ∧
      ∀ t d, run [t, x, d] σ m = run [t, .file f, d] σ m') ∧
    (∀ args v m', args.length ≤ 3 → run args σ m = (.done v, m') →
      Chosen p (m.store.placed "run" args).1 (m.store.placed "run" args).2.1 σ m v) ∧
    ∀ method, method = "run" ∨ method = "stringify" → ∀ args t x m₁, args.length ≤ 3 →
      treeAndFile (m.store.placed method args).1 (m.store.placed method args).2.1 σ m = (.done (t, x), m₁) →
      m₁.store.fits x = false → ∃ i m₂, processorMethod method p args σ m = (.raised (.fault i), m₂) ∧ Aside m₁ m₂ ∧
        (m₂.store.fault i).detail = .plain .type := by
  intro run stringify
  refine ⟨fun f hf => ⟨run_alone hf p σ, stringify_alone hf p σ⟩, fun t d hd => ?_, fun t s hs => ?_,
    fun x hx => run_options hx p σ, fun x hx => run_plainOptions hx p σ, fun args v m' hargs h => ?_,
    fun method hmethod args t x m₁ hargs htaken hx => call_fails hmethod hargs htaken hx p⟩
  · have hplaced := placed_run_callable hd t []
    have hplaced' : m.store.placed "run" [t, .null, d] = (t, .null, d) := placed_run rfl t d
    exact call_congr (.inl rfl) (by simp) (by simp) (by rw [hplaced, hplaced']) (by rw [hplaced, hplaced'])
  · have hplaced := placed_stringify_settings (m := m) hs t
    have hplaced' := placed_stringify (m := m) t s
    exact call_congr (.inr rfl) (by simp) (by simp) (by rw [hplaced, hplaced']) (by rw [hplaced, hplaced'])
  · have hcall := (call_settles (.inl rfl) hargs p σ m).symm.trans h
    obtain ⟨found, m₁, hsettled, hgoes⟩ := of_bind_done hcall
    rw [transformed_done hgoes]
    exact settled_done hsettled

/-- With a text for its file, and with a file in its first place. -/
theorem forms_of_calls_desk :
    let run := processorMethod "run" (.processor 0)
    let m := Machine.desk (.str "tree")
    run [.file 0] (service 1) m = run [.null, .file 0] (service 1) m ∧
    (∃ f m', run [.str "text", .hook .bail] (service 1) m = run [.file f, .hook .bail] (service 1) m') ∧
    ∃ i m', run [.null, .int 5] (service 1) m = (.raised (.fault i), m') := by
  intro run m
  obtain ⟨hfile, -, -, -, hoptions, -, hfails⟩ := forms_of_calls (.processor 0) (service 1) m
  obtain ⟨f, m', -, -, hcalled, -⟩ := hoptions (.str "text") (.inl rfl)
  obtain ⟨i, m₂, hraised, -⟩ := hfails "run" (.inl rfl) [.null, .int 5] .null (.int 5) m (by decide) rfl rfl
  exact ⟨(hfile 0 (attr?_of_shelved (shelved_desk _) rfl (by decide))).1.1, ⟨f, m', hcalled (.hook .bail) rfl⟩,
    ⟨i, m₂, hraised⟩⟩

end Work
end Treeworks
