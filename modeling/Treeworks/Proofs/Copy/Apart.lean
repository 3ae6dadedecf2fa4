import Treeworks.Proofs.Copy.Duplicate

/-! A file and its copy, over any sequence of operations on either of them. They stay apart as long as nothing that can
change is put into both, and whatever is done with the one leaves the other as it is. -/
namespace Treeworks

/-- No processors. -/
def noNames : Nat → Option String := fun _ => none

section
variable {made : Value → List Value} {names : Nat → Option String} {f x : Nat} {m m' : Machine}

/-- A file that is as it is typed is so without regard to processors. -/
theorem Twins.proper (h : Twins made f x m) : Proper x noNames m where
  shelved := h.right
  plain := h.plain
  named hname := by cases hname
  apart hname := by cases hname

/-- What is part of one of two files that are apart is no part of the other that could change. -/
theorem Twins.guarded (h : Twins made f x m) : Guarded made f x m := by
  have hoff (w : Value) (hx : m.store.Side made x w) : m.store.Off made f w := by
    intro hmutable hf
    have hfixed := h.separate.apart w hf hx
    rw [hmutable] at hfixed
    cases hfixed
  obtain ⟨l, hl⟩ := h.rightMessages
  obtain ⟨d, hd, hlt, -⟩ := h.right.bags
  refine ⟨h.plain, h.separate.left, h.right.file_lt, hoff _ (Store.side_file x) rfl, ⟨l, hl, ?_⟩, ⟨d, hd, hlt, ?_, ?_⟩⟩
  · exact hoff (.list l) (hl ▸ Store.side_messages x) rfl
  · exact hoff (.dict d) (hd ▸ Store.side_bags x) rfl
  · exact fun e he => hoff e.2 (Store.side_bag hd he)

end

open Work in
/-- The operations on a file `x`. Those who answer requests meanwhile work on this file, for whatever processors, and leave
a file `f` alone; an edit is made to something that is part of `x`. -/
inductive Operates (made : Value → List Value) (f x : Nat) : Machine → Machine → Prop
  | assign {m : Machine} {name : String} (σ : Service) (hname : name = "contents" ∨ name = "quiet") (v : Value) :
      Operates made f x m (setAttribute (.file x) name v σ m).2
  | move {m : Machine} {filename directory extension : Value} (σ : Service) (hfilename : filename.isPathPart = true)
      (hdirectory : directory.isPathPart = true) (hextension : extension.isPathPart = true) :
      Operates made f x m (modifyStore (fun s => s.moveFile x filename directory extension) σ m).2
  | report {m : Machine} {names : Nat → Option String} {σ : Service} (hm : Proper x names m)
      (hσ : ∀ r m, (Discipline.working made names f x).holds m (σ r m).2) (how : Reporting) (reason position : Value) :
      Operates made f x m (report how x reason position σ m).2
  | bag {m : Machine} (σ : Service) (name : String) : Operates made f x m (bagOf x (.str name) σ m).2
  | edit {m : Machine} {s : Store} {v : Value} (hside : m.store.Side made x v) (hfile : v ≠ .file x)
      (hroot : v ≠ (m.store.file x).bags) (halters : m.store.Alters v s) : Operates made f x m { m with store := s }
  | call {m : Machine} {names : Nat → Option String} {σ : Service} (hm : Proper x names m)
      (hσ : ∀ r m, (Discipline.working made names f x).holds m (σ r m).2) {p : Nat} {name : String}
      (hname : names p = some name) {method : String} (hmethod : method = "run" ∨ method = "stringify")
      {args : List Value} (hargs : args.length ≤ 3) {given : Value} (hgiven : m.store.given? x method args = some given) :
      Operates made f x m (processorMethod method (.processor p) args σ m).2
  | parse {m : Machine} {names : Nat → Option String} {σ : Service} (hm : Proper x names m)
      (hσ : ∀ r m, (Discipline.working made names f x).holds m (σ r m).2) {p : Nat} {name : String}
      (hname : names p = some name) (settings : Value) :
      Operates made f x m (beginParse (.processor p) (.file x) settings σ m).2
  | parsed {m : Machine} {names : Nat → Option String} {σ : Service} (hm : Proper x names m)
      (hσ : ∀ r m, (Discipline.working made names f x).holds m (σ r m).2) {p : Nat} {name : String}
      (hname : names p = some name) (step : OpenStep) (arrived : Except Value Value) :
      Operates made f x m (finishParse (.processor p) x step arrived σ m).2

namespace Operates
variable {made : Value → List Value} {f x : Nat} {m m' : Machine}

/-- Whatever is done with a file leaves it as it is typed, and leaves the other file alone. -/
theorem works (h : Operates made f x m m') (ht : Twins made f x m) : ∃ names, Works made names f x m m' := by
  have hg := ht.guarded
  cases h with
  | assign σ hname v => exact ⟨noNames, Work.works_assign ht.proper hg hname v σ⟩
  | move σ hfilename hdirectory hextension =>
    exact ⟨noNames, Work.works_move ht.proper hg hfilename hdirectory hextension σ⟩
  | report hm hσ how reason position =>
    exact ⟨_, Discipline.holds_working.mp (Work.keeps_report how reason position _ hσ _) hm hg⟩
  | bag σ name =>
    obtain ⟨b, m', hgives, -, hbeside, -⟩ := Work.gives_bagOf ht.right name
    have hrespects := Work.respects_bagOf ht.right hg name
    rw [hgives Service.idle] at hrespects
    rw [hgives σ]
    exact ⟨noNames, .of_beside ht.proper hbeside, hrespects⟩
  | edit hside hfile hroot halters =>
    refine ⟨noNames, works_altered ht.proper hg halters (fun hother => ?_) hfile hroot fun hname => by cases hname⟩
    -- What is edited is part of this file, so it is no part of the other.
    have hfixed := ht.separate.apart _ hother hside
    rw [halters.isMutable] at hfixed
    cases hfixed
  | call hm hσ hname hmethod hargs hgiven => exact ⟨_, Work.works_call hσ hm hg hname hmethod hargs hgiven⟩
  | parse hm hσ hname settings =>
    refine ⟨_, Discipline.holds_working.mp (Work.keeps_beginParse ?_ hname settings _ hσ _) hm hg⟩
    exact fun hname step arrived => Work.keeps_endOfParse hname step arrived
  | parsed hm hσ hname step arrived =>
    exact ⟨_, Discipline.holds_working.mp (Work.keeps_endOfParse hname step arrived _ hσ _) hm hg⟩

/-- An operation on one of two files that are apart leaves the other as it is, with all its parts. -/
theorem same (h : Operates made f x m m') (ht : Twins made f x m) : m.store.SameFile made m'.store f := by
  obtain ⟨names, hworks⟩ := h.works ht
  exact hworks.respects.same

end Operates

/-- One step of a history: an operation on either of two files that puts nothing of the other into it, or something that
concerns neither. -/
inductive Proceeds (made : Value → List Value) (f g : Nat) : Machine → Machine → Prop
  | left {m m' : Machine} (h : Operates made g f m m') (hbrings : m.store.Brings made m'.store f g) : Proceeds made f g m m'
  | right {m m' : Machine} (h : Operates made f g m m') (hbrings : m.store.Brings made m'.store g f) : Proceeds made f g m m'
  | elsewhere {m m' : Machine} (hplain : m'.Plain) (hthere : ∀ w, m.store.There w → m'.store.There w)
      (hleft : m.store.SameFile made m'.store f) (hright : m.store.SameFile made m'.store g) : Proceeds made f g m m'

namespace Twins
variable {made : Value → List Value} {f g : Nat} {m m' : Machine}

/-- Two files stay apart when one of them is worked on and gets nothing of the other. -/
theorem of_operates (h : Twins made f g m) (ho : Operates made f g m m') (hbrings : m.store.Brings made m'.store g f) :
    Twins made f g m' := by
  obtain ⟨names, habides, hrespects⟩ := ho.works h
  obtain ⟨l, hl⟩ := h.leftMessages
  obtain ⟨l', hl'⟩ := h.rightMessages
  refine ⟨h.left.of_sameFile hrespects.same hrespects.there, habides.proper.shelved, habides.proper.plain, ⟨l, ?_⟩,
    ⟨l', hrespects.messages.trans hl'⟩, ?_⟩
  · rw [hrespects.same.file, hl]
  · exact (h.separate.symm.of_brings hrespects.same hbrings hrespects.there).symm

/-- Each step leaves the files apart. -/
theorem step (h : Twins made f g m) (hs : Proceeds made f g m m') : Twins made f g m' := by
  cases hs with
  | left ho hbrings => exact (h.symm.of_operates ho hbrings).symm
  | right ho hbrings => exact h.of_operates ho hbrings
  | elsewhere hplain hthere hleft hright =>
    obtain ⟨l, hl⟩ := h.leftMessages
    obtain ⟨l', hl'⟩ := h.rightMessages
    refine ⟨h.left.of_sameFile hleft hthere, h.right.of_sameFile hright hthere, hplain, ⟨l, ?_⟩, ⟨l', ?_⟩, ?_, ?_, ?_⟩
    · rw [hleft.file, hl]
    · rw [hright.file, hl']
    · exact fun w hf hg => h.separate.apart w (hleft.side.mp hf) (hright.side.mp hg)
    · exact fun w hf => hthere w (h.separate.left w (hleft.side.mp hf))
    · exact fun w hg => hthere w (h.separate.right w (hright.side.mp hg))

/-- So does every history. -/
theorem run (h : Twins made f g m) (hs : Relation.ReflTransGen (Proceeds made f g) m m') : Twins made f g m' := by
  induction hs with
  | refl => exact h
  | tail _ hstep ih => exact ih.step hstep

end Twins

namespace Work
variable {made : Value → List Value} {σ : Service} {m m₂ : Machine} {f l : Nat} {v : Value}

/-- A copy of a file is equal to the file, which stays as it is: it has the same text, path and quietness, the same
diagnostics in a list of its own, and bags that are equal in structure. The two have nothing in common that can change.
However long either of them is worked on, each operation on the one leaves the other as it is with all its parts, unless
something is put into both. A file that is coerced is not copied: whatever is done with the result is done with the
file. -/
theorem copied_file_apart (hs : m.store.Shelved f) (hplain : m.Plain) (hl : (m.store.file f).messages = .list l)
    (hthere : ∀ w, m.store.Side made f w → m.store.There w)
    (hcopy : deepCopy (m.store.file f).bags σ (relisted m l) = (.done v, m₂))
    (hdup : Duplicates made (relisted m l) (m.store.file f).bags m₂ v) :
    (∃ g m', newFile (.file f) σ m = (.done (.file g), m') ∧ Copied made m f m' g ∧
      ∀ a, Relation.ReflTransGen (Proceeds made f g) m' a → a.store.Separate made f g ∧
        ∀ b, (Operates made f g a b → a.store.SameFile made b.store f) ∧
          (Operates made g f a b → a.store.SameFile made b.store g)) ∧
    ∀ {α : Type} (w : Nat → Work α), (coerceFile (.file f) >>= w) = w f := by
  obtain ⟨g, m', hnew, hcopied, htwins⟩ := copied_newFile hs hplain hl hthere hcopy hdup
  refine ⟨⟨g, m', hnew, hcopied, fun a hrun => ?_⟩, fun w => rfl⟩
  have hlater : Twins made f g a := htwins.run hrun
  exact ⟨hlater.separate, fun b => ⟨fun ho => ho.same hlater, fun ho => ho.same hlater.symm⟩⟩

/-! ### A small machine -/

deriving instance DecidableEq for Outcome

/-- A machine with one file, which has a diagnostic and on which one tree is parked. -/
def stocked : Machine :=
  { (default : Machine) with
    store := { (default : Store) with
      lists := #[#[.fault 0], #[.str "leaf"]]
      dicts := #[[(.str "n", .dict 1)], [(.str "tree", .list 1)]]
      tuples := #[[.str "odd"]]
      faults := #[.new (.plain .value) (.tuple 0) .null]
      files := #[⟨.str "text", .str "a", .null, .str "md", .bool false, .list 0, .dict 0, []⟩] } }

/-- The machine when the diagnostics have been listed anew and the bags have been copied. -/
def restocked : Machine := (deepCopy (.dict 0) Service.idle (relisted stocked 0)).2

/-- The bags with what is in them, each with its copy. -/
def counterparts : List (Value × Value) :=
  [(.dict 0, .dict 2), (.dict 1, .dict 3), (.list 1, .list 3), (.str "n", .str "n"), (.str "tree", .str "tree"),
    (.str "leaf", .str "leaf")]

/-- What a tuple is made of. -/
def tupled : Value → List Value
  | .tuple i => stocked.store.tuple i
  | _ => []

theorem dicts_restocked : restocked.store.dicts =
    (stocked.store.dicts.push [(.str "n", .dict 3)]).push [(.str "tree", .list 3)] := by
  decide +kernel

theorem lists_restocked : restocked.store.lists = (relisted stocked 0).store.lists.push #[.str "leaf"] := by
  decide +kernel

theorem files_restocked : restocked.store.files = stocked.store.files := by decide +kernel

theorem deepCopy_stocked : deepCopy (.dict 0) Service.idle (relisted stocked 0) = (.done (.dict 2), restocked) := by
  have hdone : (deepCopy (.dict 0) Service.idle (relisted stocked 0)).1 = .done (.dict 2) := by decide +kernel
  exact Prod.ext hdone rfl

theorem shelved_stocked : stocked.store.Shelved 0 :=
  .of_single Nat.zero_lt_one rfl ⟨rfl, rfl, rfl⟩ (d := 0) rfl (show 0 < 2 by decide) rfl (show 1 < 2 by decide) (by decide)

theorem there_stocked (w : Value) (hw : stocked.store.Side tupled 0 w) : stocked.store.There w := by
  rcases hw with rfl | rfl | hw
  · exact Nat.zero_lt_one
  · exact Nat.zero_lt_two
  · have hin : w ∈ counterparts.map (·.1) := Store.mem_of_within (by decide) (by decide +kernel) hw
    simp only [counterparts, List.map_cons, List.map_nil, List.mem_cons, List.not_mem_nil, or_false] at hin
    rcases hin with rfl | rfl | rfl | rfl | rfl | rfl
    · exact Nat.zero_lt_two
    · exact Nat.one_lt_two
    · exact Nat.one_lt_two
    all_goals trivial

/-- The bags are copied as is taken for granted. -/
theorem duplicates_restocked : Duplicates tupled (relisted stocked 0) (.dict 0) restocked (.dict 2) := by
  have hdicts : Grows stocked.store.dicts restocked.store.dicts := dicts_restocked ▸ (Grows.push _ _).trans (.push _ _)
  have hlists : Grows (relisted stocked 0).store.lists restocked.store.lists := lists_restocked ▸ .push _ _
  constructor
  · intro u hu
    cases u with
    | dict i => exact Nat.lt_of_lt_of_le hu hdicts.size
    | list i => exact Nat.lt_of_lt_of_le hu hlists.size
    | file i => exact Nat.lt_of_lt_of_eq hu (congrArg Array.size files_restocked).symm
    | set i | worker i | processor i => exact absurd hu (Nat.not_lt_zero i)
    | _ => trivial
  · intro u hu
    cases u with
    | dict i => exact hdicts.same i hu []
    | list i => exact congrArg Array.toList (hlists.same i hu #[])
    | file i => exact congrArg (fun t => t.getD i default) files_restocked
    | set i | worker i | processor i => exact absurd hu (Nat.not_lt_zero i)
    | _ => rfl
  · decide +kernel
  · have hnone : restocked.store.tokens.size = 0 := by decide +kernel
    exact Array.eq_empty_of_size_eq_zero hnone
  · refine ⟨fun a b => (a, b) ∈ counterparts, by decide, fun a b hab => ?_, fun a b a' b' hab hab' => ?_⟩
    · have hall : ∀ e ∈ counterparts, e.2.shape = e.1.shape ∧
          (restocked.store.instance? e.2).map Instance.type = ((relisted stocked 0).store.instance? e.1).map Instance.type ∧
          List.Forall₂ (fun a b => (a, b) ∈ counterparts)
            ((relisted stocked 0).store.inside tupled e.1) (restocked.store.inside tupled e.2) := by
        decide +kernel
      obtain ⟨hshape, htype, hinside⟩ := hall _ hab
      exact ⟨hshape, htype, _, .refl _, hinside, fun _ => rfl⟩
    · have hall : ∀ e ∈ counterparts, ∀ e' ∈ counterparts, e.1.isMutable = true → (e.1 = e'.1 ↔ e.2 = e'.2) := by
        decide
      exact hall _ hab _ hab'
  · intro u hu
    have hin : u ∈ counterparts.map (·.2) := Store.mem_of_within (by decide) (by decide +kernel) hu
    simp only [counterparts, List.map_cons, List.map_nil, List.mem_cons, List.not_mem_nil, or_false] at hin
    rcases hin with rfl | rfl | rfl | rfl | rfl | rfl
    · exact ⟨show 2 < restocked.store.dicts.size by decide +kernel, fun _ => Nat.lt_irrefl 2⟩
    · exact ⟨show 3 < restocked.store.dicts.size by decide +kernel, fun _ => show ¬ 3 < 2 by decide⟩
    · exact ⟨show 3 < restocked.store.lists.size by decide +kernel, fun _ => Nat.lt_irrefl 3⟩
    all_goals exact ⟨trivial, fun h => by cases h⟩

/-- The machine when the file has been copied. -/
def recopied : Machine := (newFile (.file 0) Service.idle stocked).2

/-- The file is copied, and then something is put into the tree of the copy: the file keeps its own tree. -/
theorem copied_file_apart_stocked : newFile (.file 0) Service.idle stocked = (.done (.file 1), recopied) ∧
    Copied tupled stocked 0 recopied 1 ∧
    recopied.store.SameFile tupled (recopied.store.updateList 3 fun items => items.push (.str "another")) 0 := by
  obtain ⟨⟨g, m', hnew, hcopied, hrun⟩, -⟩ := copied_file_apart shelved_stocked (Machine.plain_default.of_eq rfl rfl) rfl
    there_stocked deepCopy_stocked duplicates_restocked
  obtain rfl : recopied = m' := congrArg Prod.snd hnew
  obtain rfl : g = 1 := by
    have hdone : (newFile (.file 0) Service.idle stocked).1 = .done (.file 1) := by decide +kernel
    rw [hnew] at hdone
    exact Value.file.inj (Outcome.done.inj hdone)
  refine ⟨hnew, hcopied, ?_⟩
  obtain ⟨-, happly⟩ := hrun recopied .refl
  -- The list that is added to is the tree in the bag of the copy.
  have hbags : (recopied.store.file 1).bags = .dict 2 := by decide +kernel
  have hbag : Value.dict 3 ∈ recopied.store.inside tupled (recopied.store.file 1).bags := by decide +kernel
  have htree : Value.list 3 ∈ recopied.store.inside tupled (.dict 3) := by decide +kernel
  have hside : recopied.store.Side tupled 1 (.list 3) := .inr (.inr (.tail (.single hbag) htree))
  have hroot : Value.list 3 ≠ (recopied.store.file 1).bags := by
    rw [hbags]
    decide
  exact (happly _).1 (.edit hside (by decide) hroot (.list 3 _))

end Work
end Treeworks
