import Treeworks.Proofs.Slot.Filing

/-! Histories of requests about a file: calls of processors, in any order and nested in one another, and the coroutines
of parses and passages, each resumed whenever it pleases. -/
namespace Treeworks

/-- Those who do what the library does not do itself. They may come back with requests. -/
abbrev Crew := (r : Request) → Work r.Reply

namespace Crew
variable (crew : Crew) (f : Nat) (names : Nat → Option String)

/-- Whether nobody of the crew writes to the slots: whatever may become of these, there is no more than what is asked
for. -/
def Steady : Prop := ∀ (C : Custom f names) (r : Request), (crew r).Keeps C.discipline

/-- Requests about the file are done by the library, all others by the crew; both ask a service of less depth. -/
def service : Nat → Service
  | 0 => Treeworks.service 0
  | depth + 1 => Service.own (fun r => crew r (service depth)) (service depth) (Request.isOurs f names)

/-- The machine after a history of requests. -/
def after (depth : Nat) (history : List Request) (m : Machine) : Machine :=
  history.foldl (fun m r => (crew.service f names depth r m).2) m

/-- With the library itself for a crew, requests are done as they are in the library. -/
theorem service_handle (depth : Nat) : Crew.service (fun r => r.handle) f names depth = Treeworks.service depth := by
  induction depth with
  | zero => rfl
  | succ depth ih =>
    funext r m
    unfold Crew.service Service.own
    rw [ih]
    split <;> rfl

variable {crew f names}

open Work in
/-- Every request changes the slots by parses and given trees alone. -/
theorem holds_service (h : crew.Steady f names) (depth : Nat) (r : Request) (m : Machine) :
    (Custom.filing f names).discipline.holds m (crew.service f names depth r m).2 := by
  induction depth generalizing r m with
  | zero => exact keeps_fail .tooDeep .idle (fun _ m => Discipline.refl _ m) m
  | succ depth ih => exact keeps_own (fun r m => h _ r _ ih m) (fun r m hours => holds_isOurs ih hours) r m

/-- So does every history. -/
theorem holds_after (h : crew.Steady f names) (depth : Nat) (history : List Request) (m : Machine) :
    (Custom.filing f names).discipline.holds m (crew.after f names depth history m) := by
  induction history generalizing m with
  | nil => exact Discipline.refl _ m
  | cons r history ih => exact Discipline.trans _ (holds_service h depth r m) (ih _)

end Crew

section
variable (f : Nat) (names : Nat → Option String) (m : Machine)

open Work in
/-- How calls of `run` and `stringify` for a file find their tree: without one they raise an error at once, whatever
requests would be answered; else they go on with the tree that was given, or the one in the slot, and the slot is filled
if it was empty. What they do from then on leaves the slots alone, apart from what they ask for. -/
def Resolves : Prop :=
  ∀ {p name method args given}, names p = some name → method = "run" ∨ method = "stringify" → args.length ≤ 3 →
    m.store.given? f method args = some given →
    (chosenTree given (m.trees f name) = .null → ∃ e m', (processorMethod method (.processor p) args).Raises m e m' ∧
      m'.store.IsMissingTree e ∧ m'.trees f = m.trees f) ∧
    (chosenTree given (m.trees f name) ≠ .null → ∃ m',
      (∀ σ, processorMethod method (.processor p) args σ m =
        goesOn method (.processor p) (chosenTree given (m.trees f name)) f (m.store.placed method args).2.2 σ m') ∧
      m'.trees f = Function.update (m.trees f) name (parkedTree given (m.trees f name)) ∧
      ∀ (C : Custom f names) σ, (∀ r m, C.discipline.holds m (σ r m).2) → C.allows m'
        (goesOn method (.processor p) (chosenTree given (m.trees f name)) f (m.store.placed method args).2.2 σ m').2)

open Work in
/-- How parses of a file end, at once or after waiting: a tree comes into the slot just when the parse finishes with
it. -/
def Parses : Prop :=
  ∀ {p name}, names p = some name → ∀ (C : Custom f names) σ, (∀ r m, C.discipline.holds m (σ r m).2) →
    (∀ settings, Files C name m (beginParse (.processor p) (.file f) settings σ m).1
      (beginParse (.processor p) (.file f) settings σ m).2) ∧
    ∀ step arrived, Files C name m (finishParse (.processor p) f step arrived σ m).1
      (finishParse (.processor p) f step arrived σ m).2

variable {f names m}

open Work in
theorem resolves_of_proper (hm : Proper f names m) : Resolves f names m := by
  intro p name method args given hname hmethod hargs hgiven
  refine ⟨fun hchosen => ?_, fun hchosen => ?_⟩
  · obtain ⟨e, m', hraises, hmissing, -, htrees⟩ := call_raises hm hname hmethod hargs hgiven hchosen
    exact ⟨e, m', hraises, hmissing, htrees⟩
  · obtain ⟨m', hcall, habides, htrees⟩ := call_begins hm hname hmethod hargs hgiven hchosen
    exact ⟨m', hcall, htrees, fun C σ hσ => (keeps_goesOn hname method _ _ σ hσ m' habides.proper).2⟩

open Work in
theorem parses_of_proper (hm : Proper f names m) : Parses f names m :=
  fun hname _ _ hσ => ⟨files_beginParse hσ hm hname, files_finishParse hσ hm hname⟩

end
end Treeworks
