import Treeworks.Proofs.Frame.Coroutines
import Treeworks.Proofs.Slot.Building

/-! Parses and passages of a file. A parse that succeeds ends by putting its tree into the slot, and nothing else that
it does there is its own; the stages of a passage only look into the slot, apart from what they ask for. -/
namespace Treeworks

namespace Work
variable {α β : Type} {m m' : Machine} {f p : Nat} {name : String} {names : Nat → Option String} {C : Custom f names}

/-- What a parse does to the slots: what is allowed anyway and, just when it finishes with a tree, a last step that puts
this tree into the slot of a name. -/
structure Files (C : Custom f names) (name : String) (m : Machine) (out : Outcome Advance) (m' : Machine) : Prop where
  finished : ∀ tree, out = .done (.finish tree) → ∃ m₁, Abides f names m m₁ ∧ C.allows m m₁ ∧ Abides f names m₁ m' ∧
    m'.trees f = Function.update (m₁.trees f) name tree
  unfinished : (∀ tree, out ≠ .done (.finish tree)) → Abides f names m m' ∧ C.allows m m'

theorem files_bind {σ : Service} {w : Work α} {g : α → Work Advance}
    (hw : Abides f names m (w σ m).2 ∧ C.allows m (w σ m).2)
    (hg : ∀ a m₁, Proper f names m₁ → Files C name m₁ (g a σ m₁).1 (g a σ m₁).2) :
    Files C name m ((w >>= g) σ m).1 ((w >>= g) σ m).2 := by
  obtain ⟨habides, hallows⟩ := hw
  rw [bind_eq]
  rcases hr : w σ m with ⟨a | e | _, m₁⟩ <;> rw [hr] at habides hallows
  · have hrest := hg a m₁ habides.proper
    refine ⟨fun tree hend => ?_, fun hother => ?_⟩
    · obtain ⟨m₂, habides', hallows', hlast⟩ := hrest.finished tree hend
      exact ⟨m₂, habides.trans habides', C.trans hallows hallows', hlast⟩
    · obtain ⟨habides', hallows'⟩ := hrest.unfinished hother
      exact ⟨habides.trans habides', C.trans hallows hallows'⟩
  · exact ⟨fun _ hend => (by cases hend), fun _ => ⟨habides, hallows⟩⟩
  · exact ⟨fun _ hend => (by cases hend), fun _ => ⟨habides, hallows⟩⟩

/-- Work that does not finish is no parse that has come to its end. -/
theorem files_of_keeps {σ : Service} {w : Work Advance} (hw : Abides f names m (w σ m).2 ∧ C.allows m (w σ m).2)
    (hnever : ∀ tree, (w σ m).1 ≠ .done (.finish tree)) : Files C name m (w σ m).1 (w σ m).2 :=
  ⟨fun tree hend => absurd hend (hnever tree), fun _ => hw⟩

/-- A step that closes with an error has no result. -/
theorem yields_closeStep_error (step : OpenStep) (e : Value) :
    (closeStep step (.error e) : Work α).Yields fun _ => False := by
  have hrest (last : Except Value Unit) :
      (do handling e (restoreScope step.token); let _ ← release last; reraise e : Work α).Yields fun _ => False :=
    yields_bind fun _ => yields_bind fun _ => yields_reraise e
  unfold closeStep
  refine yields_bind fun ordinary => ?_
  split
  · exact yields_bind fun _ => yields_bind fun _ => yields_bind hrest
  · exact yields_bind hrest

/-- A parse that does not close has done nothing more, and does not finish. -/
theorem finishParse_unclosed {σ : Service} {step : OpenStep} {arrived : Except Value Value} (p : Value) (g : Nat)
    (hunclosed : ∀ tree : Value, (closeStep step arrived σ m).1 ≠ .done tree) :
    (finishParse p g step arrived σ m).2 = (closeStep step arrived σ m).2 ∧
      ∀ tree, (finishParse p g step arrived σ m).1 ≠ .done (.finish tree) := by
  have hparse : finishParse p g step arrived σ m = _ := bind_eq (closeStep step arrived) _ σ m
  rw [hparse]
  rcases hclose : closeStep step arrived σ m with ⟨tree | e | _, m₁⟩
  · rw [hclose] at hunclosed
    exact absurd rfl (hunclosed tree)
  · exact ⟨rfl, fun _ h => (by cases h)⟩
  · exact ⟨rfl, fun _ h => (by cases h)⟩

section
variable {σ : Service} (hσ : ∀ r m, C.discipline.holds m (σ r m).2) (hm : Proper f names m) (hname : names p = some name)
include hσ hm hname

/-- A parse that closes without an error finishes with its tree, which comes into the slot in place of any other. -/
theorem finishParse_closed {step : OpenStep} {arrived : Except Value Value} {tree : Value} {m₁ : Machine}
    (hclose : closeStep step arrived σ m = (.done tree, m₁)) :
    ∃ m', finishParse (.processor p) f step arrived σ m = (.done (.finish tree), m') ∧ Abides f names m₁ m' ∧
      m'.trees f = Function.update (m₁.trees f) name tree := by
  have hm₁ : Proper f names m₁ := by
    have hkept := keeps_closeStep (D := C.discipline) step arrived σ hσ m hm
    rw [hclose] at hkept
    exact hkept.1.proper
  obtain ⟨m', hpark, hbeside, htrees⟩ := gives_park hm₁.shelved name tree
  refine ⟨m', ?_, Abides.of_beside hm₁ hbeside, htrees⟩
  unfold finishParse
  rw [bind_eq, hclose]
  dsimp only
  rw [(gives_name (hm₁.named hname)).bind_eq, ← bind_assoc, hpark.bind_eq]
  rfl

theorem files_finishParse (step : OpenStep) (arrived : Except Value Value) :
    Files C name m (finishParse (.processor p) f step arrived σ m).1 (finishParse (.processor p) f step arrived σ m).2 := by
  have hkept := keeps_closeStep (D := C.discipline) step arrived σ hσ m hm
  by_cases hclosed : ∃ tree, (closeStep step arrived σ m).1 = .done tree
  · obtain ⟨tree, hclosed⟩ := hclosed
    obtain ⟨m', hparse, habides, htrees⟩ := finishParse_closed hσ hm hname (Prod.ext hclosed rfl)
    rw [hparse]
    refine ⟨fun other hend => ?_, fun hother => absurd rfl (hother tree)⟩
    cases hend
    exact ⟨_, hkept.1, hkept.2, habides, htrees⟩
  · obtain ⟨hsame, hnever⟩ := finishParse_unclosed (.processor p) f (not_exists.mp hclosed)
    refine files_of_keeps ?_ hnever
    rw [hsame]
    exact hkept

/-- A parse of the file that comes to its end when it begins, or else waits. -/
theorem files_beginParse (settings : Value) :
    Files C name m (beginParse (.processor p) (.file f) settings σ m).1
      (beginParse (.processor p) (.file f) settings σ m).2 := by
  have hfile : (coerceFile (.file f)).Gives m f m := gives_pure f m
  obtain ⟨path, hpath, hread⟩ := reads_filePath hm.shelved
  unfold beginParse
  rw [hfile.bind_eq, (gives_name (hm.named hname)).bind_eq, hread.bind_eq]
  have hscalar : ∀ e ∈ ([("processor", .str name), ("stage", .str "parse"), ("file_path", path)] : Table Value),
      e.2.isScalar = true := by
    simp only [List.mem_cons, List.not_mem_nil, or_false, forall_eq_or_imp, forall_eq]
    exact ⟨rfl, rfl, hpath⟩
  refine files_bind (keeps_openStep _ _ _ hscalar σ hσ m hm) fun step m₁ hm₁ => ?_
  have hasked : (attempt do
      callMethod (← callMethod (.processor p) "create_parser" [.file f, settings]) "parse" []).Keeps C.discipline := by
    grind
  refine files_bind (hasked σ hσ m₁ hm₁) fun parsed m₂ hm₂ => ?_
  cases parsed with
  | error e =>
    have hclose := keeps_closeStep (D := C.discipline) (α := Advance) step (.error e) σ hσ m₂ hm₂
    exact files_of_keeps hclose fun tree h => yields_closeStep_error step e σ m₂ (Advance.finish tree) _ (Prod.ext h rfl)
  | ok tree =>
    refine files_bind (keeps_isAwaitable tree σ hσ m₂ hm₂) fun waits m₃ hm₃ => ?_
    cases waits with
    | true => exact files_of_keeps ⟨.refl hm₃, C.steady (.refl hm₃) rfl⟩ fun _ h => (by cases h)
    | false => exact files_finishParse hσ hm₃ hname step (.ok tree)

end

/-! ### Passages -/

theorem holds_runner (m : Machine) (r : Runner) :
    C.discipline.holds m { m with store := { m.store with runner := r } } := by
  intro hm
  exact C.of_elsewhere hm rfl (Nat.le_refl _) (fun _ _ => rfl) (Nat.le_refl _) rfl rfl ⟨hm.plain.cells, hm.plain.tokens⟩

theorem pure_bind (a : α) (g : α → Work β) : (pure a : Work α) >>= g = g a := rfl

theorem keeps_beginProcess (hname : names p = some name) (settings : Value) :
    (beginProcess (.processor p) (.file f) settings).Keeps C.discipline := by
  have hpush (started : Passage) :
      (make fun s => (s.passages.size, { s with passages := s.passages.push started })).Keeps C.discipline :=
    keeps_make fun m => C.discipline.aside { Aside.refl m with }
  unfold beginProcess
  simp only [Value.isFile, if_true, pure_bind, Store.fileIndex]
  refine keeps_bind (keeps_truth _) fun given => ?_
  split
  rotate_left
  refine keeps_bind (keeps_newDict _) fun settings => ?_
  -- The settings are there now, given or new.
  all_goals
    refine keeps_bind (hpush _) fun c => keeps_bind (keeps_makeInLoop _) fun finished => ?_
    refine keeps_labelled hname fun label path hlabel hpath => ?_
    refine keeps_bind (keeps_openStep _ _ _ ?_) fun step => ?_
    · simp only [List.mem_cons, List.not_mem_nil, or_false, forall_eq_or_imp, forall_eq]
      exact ⟨hlabel, rfl, hpath, rfl⟩
    · refine keeps_bind (keeps_attempt (keeps_runWare holds_runner _ _)) fun ran => ?_
      split
      · exact keeps_pure _
      · exact keeps_closeStep _ _

/-- The first stage of a passage of the file looks into the slot and leaves it as it is. -/
theorem holds_parseStage {σ : Service} (hσ : ∀ r m, C.discipline.holds m (σ r m).2) (hname : names p = some name)
    {c : Nat} (hprocessor : (m.store.passages.getD c default).processor = .processor p)
    (hfile : (m.store.passages.getD c default).file = .file f) :
    C.discipline.holds m (parseStage c σ m).2 := by
  refine C.discipline.of_proper fun hm => ?_
  have hread : (passage c).Gives m (m.store.passages.getD c default) m := fun _ => rfl
  unfold parseStage
  rw [hread.bind_eq, hprocessor, hfile]
  split
  · obtain ⟨b, m₁, hbag, hfound, hbeside, htrees⟩ := gives_bagOf hm.shelved name
    have hslot : (slotTree (.file f) (.str name)).Gives m (m₁.trees f name) m₁ :=
      hbag.bind (gives_treeIn_bag hfound)
    have hlook : C.discipline.holds m m₁ := by
      have habides := Abides.of_beside hm hbeside
      exact fun _ => ⟨habides, C.steady habides htrees⟩
    rw [(gives_name (hm.named hname)).bind_eq, hslot.bind_eq]
    refine C.discipline.trans hlook (keeps_bind (keeps_updatePassage _ _) (fun _ => ?_) σ hσ m₁)
    split
    · exact keeps_newCoroutine _
    · exact keeps_pure _
  · exact C.discipline.refl m

theorem keeps_compileStage {D : Discipline} (c : Nat) : (compileStage c).Keeps D := by
  refine keeps_bind (keeps_passage c) fun p => keeps_bind (keeps_callMethod _ _ _) fun result => ?_
  refine keeps_bind (keeps_isAwaitable result) fun waits => ?_
  split
  · exact keeps_newCoroutine _
  · exact keeps_bind (keeps_updatePassage _ _) fun _ => keeps_pure _

theorem keeps_finishPassage {D : Discipline} (c future : Nat) (error : Value) : (finishPassage c future error).Keeps D := by
  unfold finishPassage
  grind

/-- The library's own functions keep to every discipline, but for the one that looks into slots. -/
theorem keeps_callHook {D : Discipline} {h : Hook} (hlooks : h ≠ .parseStage) (args : List Value)
    (keywords : Table Value) : (callHook h args keywords).Keeps D := by
  refine keeps_bind (keeps_query _) fun label => keeps_bind (keeps_boundArguments _ _ _ _) fun given => ?_
  split
  · split
    · exact keeps_pure _
    · exact keeps_raiseValue _
  · exact absurd rfl hlooks
  · refine keeps_bind (keeps_passage _) fun p => keeps_bind (keeps_callMethod _ _ _) fun _ => keeps_pure _
  · exact keeps_compileStage _
  · exact keeps_finishPassage _ _ _
  · exact keeps_failLacking _ _

/-- The first stage of a passage is called with the passage. -/
theorem callHook_parseStage (c : Nat) (σ : Service) (m : Machine) :
    callHook .parseStage [.passage c] [] σ m = parseStage c σ m := rfl

end Work

/-! ### Stages of coroutines -/

/-- Whether a processor is one of those that have names, and a file the one that is looked at. -/
def concerns (f : Nat) (names : Nat → Option String) (processor file : Value) : Bool :=
  match processor, file with
  | .processor p, .file g => decide (g = f) && (names p).isSome
  | _, _ => false

theorem of_concerns {f : Nat} {names : Nat → Option String} {processor file : Value}
    (h : concerns f names processor file = true) :
    ∃ p name, processor = .processor p ∧ file = .file f ∧ names p = some name := by
  unfold concerns at h
  split at h
  · rename_i p g
    obtain ⟨hg, hname⟩ := Bool.and_eq_true_iff.mp h
    obtain ⟨name, hname⟩ := Option.isSome_iff_exists.mp hname
    exact ⟨p, name, rfl, by rw [of_decide_eq_true hg], hname⟩
  · cases h

/-- Whether a stage is one of a parse or a passage of a file by one of some processors. -/
def Stage.isOurs (f : Nat) (names : Nat → Option String) : Stage → Bool
  | .parse p value _ | .process p value _ => concerns f names p value
  | .parsed p g _ => concerns f names p (.file g)
  | .processed .. | .parsePassage _ | .parsedPassage _ | .settlePassage .. | .settledPassage _ => true
  | .resolve _ | .adopt _ | .resolved => true
  | .draw _ _ next | .drawn next => next.isOurs f names
  | _ => false

namespace Work
variable {α β : Type} {m m' : Machine} {f p : Nat} {name : String} {names : Nat → Option String} {C : Custom f names}

theorem yields_finishParse {P : Stage → Prop} (p : Value) (g : Nat) (step : OpenStep) (arrived : Except Value Value) :
    (finishParse p g step arrived).Yields (Advance.Within P) :=
  yields_bind fun _ => yields_bind fun _ => yields_bind fun _ => yields_bind fun _ => yields_pure trivial

theorem Yields.mono {w : Work α} {P Q : α → Prop} (h : w.Yields P) (hPQ : ∀ a, P a → Q a) : w.Yields Q :=
  fun σ m a m' ha => hPQ a (h σ m a m' ha)

theorem yields_beginParse {P : Stage → Prop} {p : Value} (hP : ∀ step, P (.parsed p f step)) (settings : Value) :
    (beginParse p (.file f) settings).Yields (Advance.Within P) := by
  unfold beginParse
  rw [show coerceFile (.file f) = pure f from rfl, pure_bind]
  refine yields_bind fun label => yields_bind fun path => yields_bind fun step => yields_bind fun parsed => ?_
  cases parsed with
  | ok tree =>
    refine yields_bind fun waits => ?_
    split
    · exact yields_pure (hP step)
    · exact yields_finishParse _ _ _ _
  | error e => exact (yields_closeStep_error step e).mono fun _ h => h.elim

theorem yields_beginProcess {P : Stage → Prop} {p : Value} (hP : ∀ c step, P (.processed c step)) (settings : Value) :
    (beginProcess p (.file f) settings).Yields (Advance.Within P) := by
  unfold beginProcess
  simp only [Value.isFile, if_true, pure_bind]
  refine yields_bind fun given => ?_
  split
  rotate_left
  refine yields_bind fun settings => ?_
  all_goals
    refine yields_bind fun c => yields_bind fun finished => yields_bind fun label => yields_bind fun path => ?_
    refine yields_bind fun step => yields_bind fun ran => ?_
    split
    · exact yields_pure (hP c step)
    · exact (yields_closeStep_error step _).mono fun _ h => h.elim

/-- Parses and passages of the file stay such. -/
theorem yields_advance {stage : Stage} (hours : stage.isOurs f names = true) (arrived : Except Value Value) :
    (advance stage arrived).Yields (Advance.Within fun stage => stage.isOurs f names = true) := by
  induction stage generalizing arrived with
  | parse p value settings =>
    obtain ⟨q, name, rfl, rfl, hname⟩ := of_concerns hours
    exact yields_bind fun _ => yields_beginParse (fun step => hours) settings
  | parsed p g step => exact yields_finishParse _ _ _ _
  | process p value settings =>
    obtain ⟨q, name, rfl, rfl, hname⟩ := of_concerns hours
    exact yields_bind fun _ => yields_beginProcess (fun _ _ => rfl) settings
  | processed c step => exact yields_bind fun _ => yields_pure trivial
  | parsePassage c => exact yields_bind fun _ => yields_bind fun p => yields_bind fun v => yields_pure rfl
  | parsedPassage c => exact yields_bind fun _ => yields_bind fun _ => yields_pure trivial
  | settlePassage c awaitable => exact yields_bind fun _ => yields_pure rfl
  | settledPassage c => exact yields_bind fun _ => yields_bind fun _ => yields_pure trivial
  | resolve awaitable => exact yields_bind fun _ => yields_pure rfl
  | adopt awaitable =>
    refine yields_bind fun _ => yields_bind fun v => ?_
    split
    · exact yields_pure rfl
    · exact yields_pure rfl
    · exact yields_bind fun _ => yields_pure rfl
  | resolved => exact yields_bind fun _ => yields_pure trivial
  | draw source index next ih =>
    refine yields_bind fun drawn => ?_
    split
    · exact ih hours _
    · exact ih hours _
    · exact yields_pure hours
    · exact yields_pure hours
  | drawn next ih =>
    refine yields_bind fun refused => ?_
    split
    · exact ih hours _
    · exact yields_pure trivial
  | acts | sleep | call | work => cases hours

/-- Parses of the file keep to a discipline if the ends of parses do. -/
theorem keeps_beginParse {D : Discipline} [D.Knows f names] (hfinish : ∀ {p name}, names p = some name →
    ∀ step arrived, (finishParse (.processor p) f step arrived).Keeps D) (hname : names p = some name) (settings : Value) :
    (beginParse (.processor p) (.file f) settings).Keeps D := by
  refine keeps_labelled hname fun label path hlabel hpath => ?_
  refine keeps_bind (keeps_openStep _ _ _ ?_) fun step => ?_
  · simp only [List.mem_cons, List.not_mem_nil, or_false, forall_eq_or_imp, forall_eq]
    exact ⟨hlabel, rfl, hpath⟩
  refine keeps_bind (keeps_attempt ?_) fun parsed => ?_
  · exact keeps_bind (keeps_callMethod _ _ _) fun parser => keeps_callMethod _ _ _
  cases parsed with
  | ok tree =>
    refine keeps_bind (keeps_isAwaitable _) fun waits => ?_
    split
    · exact keeps_pure _
    · exact hfinish hname _ _
  | error e => exact keeps_closeStep _ _

section
variable (hfinish : ∀ {p name}, names p = some name → ∀ step arrived,
  (finishParse (.processor p) f step arrived).Keeps C.discipline)
include hfinish

/-- Parses and passages of the file keep to what is allowed if the ends of parses do. -/
theorem keeps_advance {stage : Stage} (hours : stage.isOurs f names = true) (arrived : Except Value Value) :
    (advance stage arrived).Keeps C.discipline := by
  induction stage generalizing arrived with
  | parse p value settings =>
    obtain ⟨q, name, rfl, rfl, hname⟩ := of_concerns hours
    exact keeps_bind (keeps_release _) fun _ => keeps_beginParse hfinish hname _
  | parsed p g step =>
    obtain ⟨q, name, rfl, hg, hname⟩ := of_concerns hours
    cases hg
    exact hfinish hname _ _
  | process p value settings =>
    obtain ⟨q, name, rfl, rfl, hname⟩ := of_concerns hours
    exact keeps_bind (keeps_release _) fun _ => keeps_beginProcess hname _
  | processed c step => exact keeps_bind (keeps_closeStep _ _) fun _ => keeps_pure _
  | parsePassage c =>
    refine keeps_bind (keeps_release _) fun _ => keeps_bind (keeps_passage _) fun p => ?_
    exact keeps_bind (keeps_callMethod _ _ _) fun awaited => keeps_pure _
  | parsedPassage c =>
    exact keeps_bind (keeps_release _) fun _ => keeps_bind (keeps_updatePassage _ _) fun _ => keeps_pure _
  | settlePassage c awaitable => exact keeps_bind (keeps_release _) fun _ => keeps_pure _
  | settledPassage c =>
    exact keeps_bind (keeps_release _) fun _ => keeps_bind (keeps_updatePassage _ _) fun _ => keeps_pure _
  | resolve awaitable => exact keeps_bind (keeps_release _) fun _ => keeps_pure _
  | adopt awaitable =>
    refine keeps_bind (keeps_release _) fun _ => keeps_bind (keeps_awaitBy _) fun v => ?_
    split
    · exact keeps_pure _
    · exact keeps_pure _
    · exact keeps_bind (keeps_sourceOf _) fun _ => keeps_pure _
  | resolved => exact keeps_bind (keeps_release _) fun _ => keeps_pure _
  | draw source index next ih =>
    refine keeps_bind (keeps_attempt (keeps_bind (keeps_release _) fun _ => keeps_drawNext _ _)) fun drawn => ?_
    split
    · exact ih hours _
    · exact ih hours _
    · exact keeps_pure _
    · exact keeps_pure _
  | drawn next ih =>
    refine keeps_bind (keeps_attempt (keeps_bind (keeps_release _) fun _ => keeps_fail _)) fun refused => ?_
    split
    · exact ih hours _
    · exact keeps_pure _
  | acts | sleep | call | work => cases hours

/-- The stages of parses and passages of the file are a kind of their own. -/
theorem closed_isOurs : Stage.Closed C.discipline fun stage => stage.isOurs f names = true where
  keeps hours arrived := keeps_advance hfinish hours arrived
  within hours arrived := yields_advance hours arrived
  draw hours _ _ := hours

end

end Work
end Treeworks
