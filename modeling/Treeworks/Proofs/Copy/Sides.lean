import Mathlib.Logic.Relation
import Treeworks.Proofs.Slot.Custom

/-! What is part of a file: the file itself, its list of diagnostics, and all that its bags hold at any depth. The
diagnostics themselves are no part of it, since a copy of the file has the same ones. What never changes, such as a tuple,
a point or a record's hold on the dictionary of its attributes, is said beforehand. -/
namespace Treeworks

/-- Whether a value is an object that can come to hold something else. -/
def Value.isMutable : Value → Bool
  | .dict _ | .list _ | .set _ | .file _ | .worker _ | .processor _ => true
  | _ => false

/-- The keys and the values of a dictionary. -/
def Entries.parts (t : Entries) : List Value := t.flatMap fun e => [e.1, e.2]

/-- What a file holds directly. -/
def Carrier.parts (c : Carrier) : List Value :=
  [c.contents, c.filename, c.directory, c.extension, c.quiet, c.messages, c.bags] ++
    c.attrs.flatMap fun e => [.str e.1, e.2]

/-- What an instance of a class holds directly. -/
def Instance.parts (x : Instance) : List Value := .dict x.fields :: x.slots.parts

theorem Entries.exists_mem_of_named? {t : Entries} {name : String} {v : Value} (h : t.named? name = some v) :
    ∃ e ∈ t, e.2 = v := by
  induction t with
  | nil => cases h
  | cons e t ih =>
    rw [Entries.named?_cons] at h
    split at h
    · exact ⟨e, List.mem_cons_self .., Option.some.inj h⟩
    · obtain ⟨e', he', hv⟩ := ih h
      exact ⟨e', List.mem_cons_of_mem _ he', hv⟩

theorem Entries.mem_parts {t : Entries} {v : Value} : v ∈ t.parts ↔ ∃ e ∈ t, v = e.1 ∨ v = e.2 := by
  simp [parts]

namespace Store
variable (made : Value → List Value) (s s' : Store)

/-- What a value holds directly: of an object that can change, what it holds now; of any other, what it is made of. -/
def inside : Value → List Value
  | .dict i => (s.dict i).parts
  | .list i => s.list i
  | .set i => (s.set i).toList
  | .file i => (s.file i).parts
  | v =>
    match s.instance? v with
    | some x => x.parts
    | none => made v

/-- Whether a value is another, or within it at some depth. -/
def Within (v w : Value) : Prop := Relation.ReflTransGen (fun a b => b ∈ s.inside made a) v w

/-- Whether a value is part of a file. -/
def Side (f : Nat) (w : Value) : Prop :=
  w = .file f ∨ w = (s.file f).messages ∨ s.Within made (s.file f).bags w

/-- Whether an object that can change is there. -/
def There : Value → Prop
  | .dict i => i < s.dicts.size
  | .list i => i < s.lists.size
  | .set i => i < s.sets.size
  | .file i => i < s.files.size
  | .worker i => i < s.workers.size
  | .processor i => i < s.processors.size
  | _ => True

/-- Whether an object holds the same in two stores. -/
def SameAt : Value → Prop
  | .dict i => s'.dict i = s.dict i
  | .list i => s'.list i = s.list i
  | .set i => s'.set i = s.set i
  | .file i => s'.file i = s.file i
  | v => s'.instance? v = s.instance? v

/-- Whether the state of a file is the same in two stores, with that of all its parts. -/
def SameFile (f : Nat) : Prop := ∀ w, s.Side made f w → s.SameAt s' w

variable {made s s'} {v w : Value} {f g : Nat}

theorem SameAt.refl (s : Store) (v : Value) : s.SameAt s v := by cases v <;> rfl

theorem SameAt.symm (h : s.SameAt s' v) : s'.SameAt s v := by cases v <;> exact Eq.symm h

theorem SameAt.trans {s'' : Store} (h : s.SameAt s' v) (h' : s'.SameAt s'' v) : s.SameAt s'' v := by
  cases v <;> exact Eq.trans h' h

/-- An object that is the same holds the same. -/
theorem SameAt.inside (h : s.SameAt s' v) : s'.inside made v = s.inside made v := by
  cases v with
  | dict i => exact congrArg Entries.parts h
  | list i => exact h
  | set i => exact congrArg Elements.toList h
  | file i => exact congrArg Carrier.parts h
  | worker i => exact congrArg Instance.parts (Option.some.inj h)
  | processor i => exact congrArg Instance.parts (Option.some.inj h)
  | _ => rfl

theorem instance?_of_sameAt (h : s.SameAt s' v) : s'.instance? v = s.instance? v := by
  cases v with
  | worker i => exact h
  | processor i => exact h
  | _ => rfl

/-- What is within a value depends on what is within it alone. -/
theorem within_congr (h : ∀ w, s.Within made v w → s.SameAt s' w) : s'.Within made v w ↔ s.Within made v w := by
  constructor
  · intro hw
    induction hw with
    | refl => exact .refl
    | tail _ hin ih => exact ih.tail ((h _ ih).inside ▸ hin)
  · intro hw
    induction hw with
    | refl => exact .refl
    | tail hab hin ih =>
      have hsame : s'.inside made _ = s.inside made _ := (h _ hab).inside
      exact ih.tail (hsame.symm ▸ hin)

/-- What is within a member of a collection is in the collection, if all that the members hold is. -/
theorem mem_of_within {vs : List Value} (hv : v ∈ vs) (hheld : ∀ a ∈ vs, ∀ b ∈ s.inside made a, b ∈ vs)
    (h : s.Within made v w) : w ∈ vs := by
  induction h with
  | refl => exact hv
  | tail _ hin ih => exact hheld _ ih _ hin

theorem side_file (f : Nat) : s.Side made f (.file f) := .inl rfl

theorem side_messages (f : Nat) : s.Side made f (s.file f).messages := .inr (.inl rfl)

theorem side_bags (f : Nat) : s.Side made f (s.file f).bags := .inr (.inr .refl)

/-- The bags of a file are part of it. -/
theorem side_bag {d : Nat} (hd : (s.file f).bags = .dict d) {e : Value × Value} (he : e ∈ s.dict d) :
    s.Side made f e.2 := by
  have hin : e.2 ∈ s.inside made (s.file f).bags := by
    rw [hd]
    exact Entries.mem_parts.mpr ⟨e, he, .inr rfl⟩
  exact .inr (.inr (.single hin))

namespace SameFile

theorem refl (s : Store) (f : Nat) : s.SameFile made s f := fun w _ => .refl s w

theorem file (h : s.SameFile made s' f) : s'.file f = s.file f := h _ (side_file f)

/-- A file whose state is the same has the same parts. -/
theorem side (h : s.SameFile made s' f) : s'.Side made f w ↔ s.Side made f w := by
  unfold Side
  rw [h.file, within_congr fun v hv => h v (.inr (.inr hv))]

theorem trans {s'' : Store} (h : s.SameFile made s' f) (h' : s'.SameFile made s'' f) : s.SameFile made s'' f :=
  fun w hw => (h w hw).trans (h' w (h.side.mpr hw))

end SameFile

theorem exists_bags_of_bag? {name : String} {b : Nat} (hb : s.bag? f name = some b) : ∃ d, (s.file f).bags = .dict d := by
  unfold bag? at hb
  split at hb
  · exact ⟨_, ‹_›⟩
  · cases hb

/-- The bag of a name is an entry of the dictionary of bags. -/
theorem named?_of_bag? {d b : Nat} (hd : (s.file f).bags = .dict d) {name : String} (hb : s.bag? f name = some b) :
    (s.dict d).named? name = some (.dict b) := by
  unfold bag? at hb
  rw [hd] at hb
  dsimp only at hb
  split at hb
  · rename_i b' hb'
    rw [hb', Option.some.inj hb]
  · cases hb

/-- The dictionary of a file's bags and the bags are part of the file. -/
theorem side_of_onShelf {i : Nat} (h : s.OnShelf f i) : s.Side made f (.dict i) := by
  rcases h with hroot | ⟨name, hbag⟩
  · exact hroot ▸ side_bags f
  · obtain ⟨d, hd⟩ := exists_bags_of_bag? hbag
    obtain ⟨e, he, hvalue⟩ := Entries.exists_mem_of_named? (named?_of_bag? hd hbag)
    have hside : s.Side made f e.2 := side_bag hd he
    rwa [hvalue] at hside

theorem size_le_of_there (h : ∀ w, s.There w → s'.There w) :
    s.dicts.size ≤ s'.dicts.size ∧ s.files.size ≤ s'.files.size := by
  constructor
  · by_contra hlt
    exact Nat.lt_irrefl _ (h (.dict s'.dicts.size) (Nat.lt_of_not_le hlt))
  · by_contra hlt
    exact Nat.lt_irrefl _ (h (.file s'.files.size) (Nat.lt_of_not_le hlt))

/-- A file whose state is the same stays as it is typed. -/
theorem Shelved.of_sameFile (h : s.Shelved f) (hsame : s.SameFile made s' f) (hthere : ∀ w, s.There w → s'.There w) :
    s'.Shelved f := by
  obtain ⟨hdicts, hfiles⟩ := size_le_of_there hthere
  exact (h.congr hsame.file hfiles (fun i hi => hsame (.dict i) (side_of_onShelf hi)) hdicts).1

/-- Whether two files are there with all their parts, and have no object in common that can change. -/
structure Separate (made : Value → List Value) (s : Store) (f g : Nat) : Prop where
  apart : ∀ w, s.Side made f w → s.Side made g w → w.isMutable = false
  left : ∀ w, s.Side made f w → s.There w
  right : ∀ w, s.Side made g w → s.There w

theorem Separate.symm (h : s.Separate made f g) : s.Separate made g f :=
  ⟨fun w hg hf => h.apart w hf hg, h.right, h.left⟩

/-- Whether all that came to be part of a file is there, and nothing of it that can change is part of another. -/
def Brings (made : Value → List Value) (s s' : Store) (f g : Nat) : Prop :=
  ∀ w, s'.Side made f w → s'.There w ∧ (w.isMutable = true → s.Side made f w ∨ ¬ s'.Side made g w)

/-- Files stay apart if one of them stays as it is and the other gets nothing of it. -/
theorem Separate.of_brings (h : s.Separate made f g) (hsame : s.SameFile made s' g) (hbrings : s.Brings made s' f g)
    (hthere : ∀ w, s.There w → s'.There w) : s'.Separate made f g where
  apart w hf hg := by
    by_contra hmutable
    have hw : w.isMutable = true := by simpa using hmutable
    rcases (hbrings w hf).2 hw with hold | hnot
    · have hfalse := h.apart w hold (hsame.side.mp hg)
      exact hmutable hfalse
    · exact hnot hg
  left w hf := (hbrings w hf).1
  right w hg := hthere w (h.right w (hsame.side.mp hg))

end Store
end Treeworks
