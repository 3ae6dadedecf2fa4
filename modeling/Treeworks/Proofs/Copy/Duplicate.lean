import Mathlib.Data.List.Forall2
import Treeworks.Proofs.Copy.Operations

/-! Copies of values: what they have in common is their structure, down to which of the objects in them are one and the
same. A file is copied with a copy of its bags and with a new list of the same diagnostics. -/
namespace Treeworks

/-- A value without its identity: objects of one kind are not told apart. -/
def Value.shape : Value → Value
  | .list _ => .list 0
  | .dict _ => .dict 0
  | .tuple _ => .tuple 0
  | .set _ => .set 0
  | .record _ => .record 0
  | .view _ => .view 0
  | .point _ => .point 0
  | .fault _ => .fault 0
  | .context _ => .context 0
  | .file _ => .file 0
  | .function _ => .function 0
  | .next _ => .next 0
  | .worker _ => .worker 0
  | .processor _ => .processor 0
  | .ware _ => .ware 0
  | .step _ => .step 0
  | .passage _ => .passage 0
  | .span _ => .span 0
  | v => v

theorem Value.eq_dict_of_shape {v : Value} (h : v.shape = .dict 0) : ∃ i, v = .dict i := by
  cases v <;> first | exact ⟨_, rfl⟩ | cases h

theorem Value.eq_str_iff_of_shape {v w : Value} (h : w.shape = v.shape) (t : String) : w = .str t ↔ v = .str t := by
  have hshape (u : Value) : u = .str t ↔ u.shape = .str t := by cases u <;> simp [shape]
  rw [hshape, hshape v, h]

namespace Store

/-- Whether two values, each in its store, are of one kind and class and hold values that are related; a set may hold them
in another order. -/
structure Mirrors (made : Value → List Value) (s s' : Store) (R : Value → Value → Prop) (v w : Value) : Prop where
  shape : w.shape = v.shape
  type : (s'.instance? w).map Instance.type = (s.instance? v).map Instance.type
  inside : ∃ vs, vs.Perm (s'.inside made w) ∧ List.Forall₂ R (s.inside made v) vs ∧
    ((∀ i, v ≠ .set i) → vs = s'.inside made w)

/-- Whether two values, each in its store, are equal in structure: what is within them corresponds, one to one as far as
it can change. -/
def Alike (made : Value → List Value) (s : Store) (v : Value) (s' : Store) (w : Value) : Prop :=
  ∃ R : Value → Value → Prop, R v w ∧ (∀ a b, R a b → Mirrors made s s' R a b) ∧
    ∀ a b a' b', R a b → R a' b' → a.isMutable = true → (a = a' ↔ b = b')

section
variable {made : Value → List Value} {s s' t t' : Store} {v w : Value} {R : Value → Value → Prop}

theorem forall₂_of_mem {P Q : Value → Prop} {vs ws : List Value} (h : List.Forall₂ R vs ws) (hv : ∀ a ∈ vs, P a)
    (hw : ∀ b ∈ ws, Q b) : List.Forall₂ (fun a b => R a b ∧ P a ∧ Q b) vs ws := by
  induction h with
  | nil => exact .nil
  | cons hab _ ih =>
    rw [List.forall_mem_cons] at hv hw
    exact .cons ⟨hab, hv.1, hw.1⟩ (ih hv.2 hw.2)

/-- Likeness depends on what is within the two values alone. -/
theorem Alike.congr (h : Alike made s v s' w) (hv : ∀ a, s.Within made v a → s.SameAt t a)
    (hw : ∀ b, s'.Within made w b → s'.SameAt t' b) : Alike made t v t' w := by
  obtain ⟨R, hR, hmirrors, hone⟩ := h
  refine ⟨fun a b => R a b ∧ s.Within made v a ∧ s'.Within made w b, ⟨hR, .refl, .refl⟩, ?_, ?_⟩
  · rintro a b ⟨hab, ha, hb⟩
    obtain ⟨hshape, htype, vs, hperm, hvs, hsame⟩ := hmirrors a b hab
    rw [← instance?_of_sameAt (hv a ha), ← instance?_of_sameAt (hw b hb)] at htype
    rw [← (hw b hb).inside] at hperm hsame
    refine ⟨hshape, htype, vs, hperm, ?_, hsame⟩
    rw [(hv a ha).inside]
    apply forall₂_of_mem hvs
    · exact fun c hc => ha.tail hc
    · intro c hc
      have hin : c ∈ s'.inside made b := (hw b hb).inside ▸ hperm.mem_iff.mp hc
      exact hb.tail hin
  · rintro a b a' b' ⟨hab, -⟩ ⟨hab', -⟩
    exact hone a b a' b' hab hab'

/-- Entries that correspond have corresponding values under a text. -/
theorem named?_of_forall₂ (hshape : ∀ a b, R a b → b.shape = a.shape) {entries entries' : Entries}
    (h : List.Forall₂ R entries.parts entries'.parts) {name : String} {v' : Value} (hv : entries'.named? name = some v') :
    ∃ v, entries.named? name = some v ∧ R v v' := by
  induction entries generalizing entries' with
  | nil =>
    cases entries' with
    | nil => cases hv
    | cons e rest => cases h
  | cons e entries ih =>
    cases entries' with
    | nil => cases h
    | cons e' entries' =>
      obtain ⟨k, v⟩ := e
      obtain ⟨k', w⟩ := e'
      rcases h with _ | ⟨hkey, _ | ⟨hvalue, hrest⟩⟩
      rw [Entries.named?_cons] at hv ⊢
      by_cases hk : k = .str name
      · rw [if_pos ((Value.eq_str_iff_of_shape (hshape k k' hkey) name).mpr hk)] at hv
        rw [if_pos hk]
        exact ⟨v, rfl, Option.some.inj hv ▸ hvalue⟩
      · rw [if_neg fun e => hk ((Value.eq_str_iff_of_shape (hshape k k' hkey) name).mp e)] at hv
        rw [if_neg hk]
        exact ih hrest hv

/-- A file with a path as it is typed and bags like those of another such file is as it is typed. -/
theorem Shelved.of_alike {f g d : Nat} (h : s.Shelved f) (hd : (s.file f).bags = .dict d)
    (hlike : Alike made s (.dict d) s' v) (hthere : ∀ w, s'.Within made v w → s'.There w) (hg : g < s'.files.size)
    (hfile : s'.file g = { s.file f with messages := w, bags := v, attrs := [] }) : s'.Shelved g := by
  obtain ⟨R, hR, hmirrors, hone⟩ := hlike
  obtain ⟨d', rfl⟩ := Value.eq_dict_of_shape (hmirrors _ _ hR).shape
  obtain ⟨d₀, hd₀, -, hbags⟩ := h.bags
  obtain rfl : d = d₀ := Value.dict.inj (hd.symm.trans hd₀)
  have hroot : (s'.file g).bags = .dict d' := by rw [hfile]
  have hparts : List.Forall₂ R (s.dict d).parts (s'.dict d').parts := by
    obtain ⟨-, -, vs, -, hvs, hsame⟩ := hmirrors _ _ hR
    rw [hsame fun i e => Value.noConfusion e] at hvs
    exact hvs
  -- A bag of the copy is the counterpart of the bag that the other file has under the name.
  have hbag {name : String} {v' : Value} (hv' : (s'.dict d').named? name = some v') :
      ∃ b b', v' = .dict b' ∧ (s.dict d).named? name = some (.dict b) ∧ R (.dict b) (.dict b') ∧ b ≠ d := by
    obtain ⟨v, hv, hvv'⟩ := named?_of_forall₂ (fun a b hab => (hmirrors a b hab).shape) hparts hv'
    obtain ⟨b, rfl, -, hne⟩ := hbags name v hv
    obtain ⟨b', rfl⟩ := Value.eq_dict_of_shape (hmirrors _ _ hvv').shape
    exact ⟨b, b', rfl, hv, hvv', hne⟩
  have hin {name : String} {v' : Value} (hv' : (s'.dict d').named? name = some v') : s'.Within made (.dict d') v' := by
    obtain ⟨e, he, rfl⟩ := Entries.exists_mem_of_named? hv'
    exact .single (Entries.mem_parts.mpr ⟨e, he, .inr rfl⟩)
  refine ⟨hg, by rw [hfile], ?_, ?_, ?_, ⟨d', hroot, hthere (.dict d') .refl, fun name v' hv' => ?_⟩, ?_⟩
  · rw [hfile]
    exact h.filename
  · rw [hfile]
    exact h.directory
  · rw [hfile]
    exact h.extension
  · obtain ⟨b, b', rfl, hb, hbb', hne⟩ := hbag hv'
    refine ⟨b', rfl, hthere _ (hin hv'), fun e => hne ?_⟩
    subst e
    exact Value.dict.inj ((hone _ _ _ _ hbb' hR rfl).mpr rfl)
  · intro name other i hi hi'
    obtain ⟨b, b', hbi, hb, hbb', -⟩ := hbag (named?_of_bag? hroot hi)
    obtain ⟨c, c', hci, hc, hcc', -⟩ := hbag (named?_of_bag? hroot hi')
    cases hbi
    cases hci
    obtain rfl : b = c := Value.dict.inj ((hone _ _ _ _ hbb' hcc' rfl).mpr rfl)
    apply h.apart (b := b)
    · unfold bag?
      rw [hd]
      dsimp only
      rw [hb]
    · unfold bag?
      rw [hd]
      dsimp only
      rw [hc]

end

end Store

/-- What is taken for granted of a deep copy: whatever was there is as it was, and the copy is equal in structure; all that
can change in it is new. -/
structure Duplicates (made : Value → List Value) (m : Machine) (v : Value) (m' : Machine) (w : Value) : Prop where
  there : ∀ u, m.store.There u → m'.store.There u
  same : ∀ u, m.store.There u → m.store.SameAt m'.store u
  cells : m'.cells = m.cells
  tokens : m'.store.tokens = m.store.tokens
  alike : m.store.Alike made v m'.store w
  fresh : ∀ u, m'.store.Within made w u → m'.store.There u ∧ (u.isMutable = true → ¬ m.store.There u)

/-- What a copy of a file is, when it has just been made: equal to the file, which stays as it was, and apart from it. -/
structure Copied (made : Value → List Value) (m : Machine) (f : Nat) (m' : Machine) (g : Nat) : Prop where
  contents : (m'.store.file g).contents = (m.store.file f).contents
  filename : (m'.store.file g).filename = (m.store.file f).filename
  directory : (m'.store.file g).directory = (m.store.file f).directory
  extension : (m'.store.file g).extension = (m.store.file f).extension
  quiet : (m'.store.file g).quiet = (m.store.file f).quiet
  messages : ∃ l l', (m.store.file f).messages = .list l ∧ (m'.store.file g).messages = .list l' ∧ l' ≠ l ∧
    m'.store.list l' = m.store.list l
  bags : m.store.Alike made (m.store.file f).bags m'.store (m'.store.file g).bags
  same : m.store.SameFile made m'.store f
  separate : m'.store.Separate made f g

/-- Two files as they are typed that have nothing in common but diagnostics. -/
structure Twins (made : Value → List Value) (f g : Nat) (m : Machine) : Prop where
  left : m.store.Shelved f
  right : m.store.Shelved g
  plain : m.Plain
  leftMessages : ∃ l, (m.store.file f).messages = .list l
  rightMessages : ∃ l, (m.store.file g).messages = .list l
  separate : m.store.Separate made f g

theorem Twins.symm {made : Value → List Value} {f g : Nat} {m : Machine} (h : Twins made f g m) : Twins made g f m :=
  ⟨h.right, h.left, h.plain, h.rightMessages, h.leftMessages, h.separate.symm⟩

namespace Work
variable {made : Value → List Value} {σ : Service} {m m₂ : Machine} {f l : Nat} {v : Value}

/-- The machine after a list has been made of what is in another. -/
abbrev relisted (m : Machine) (l : Nat) : Machine := { m with store := (m.store.addList (m.store.list l)).2 }

/-- A copy of a file has a new list of the same diagnostics, and copies of the bags. -/
theorem newFile_of_copy (hl : (m.store.file f).messages = .list l)
    (hcopy : deepCopy (m.store.file f).bags σ (relisted m l) = (.done v, m₂)) :
    newFile (.file f) σ m = (.done (.file m₂.store.files.size), { m₂ with
      store := (m₂.store.addFile
        { m.store.file f with messages := .list m.store.lists.size, bags := v, attrs := [] }).2 }) := by
  have hitems : (elements (.list l)).Gives m (m.store.list l) m := fun _ => rfl
  have hlist : (newList (m.store.list l)).Gives m (.list m.store.lists.size) (relisted m l) := fun _ => rfl
  unfold newFile
  dsimp only
  rw [(gives_query _ m).bind_eq, hl, hitems.bind_eq, hlist.bind_eq, bind_eq, hcopy]
  rfl

/-- A file is copied: the copy is equal and apart, and both are as they are typed. -/
theorem copied_newFile (hs : m.store.Shelved f) (hplain : m.Plain) (hl : (m.store.file f).messages = .list l)
    (hthere : ∀ w, m.store.Side made f w → m.store.There w)
    (hcopy : deepCopy (m.store.file f).bags σ (relisted m l) = (.done v, m₂))
    (hdup : Duplicates made (relisted m l) (m.store.file f).bags m₂ v) :
    ∃ g m', newFile (.file f) σ m = (.done (.file g), m') ∧ Copied made m f m' g ∧ Twins made f g m' := by
  let g : Nat := m₂.store.files.size
  let l' : Nat := m.store.lists.size
  let c : Carrier := { m.store.file f with messages := .list l', bags := v, attrs := [] }
  let m' : Machine := { m₂ with store := (m₂.store.addFile c).2 }
  have hnew : newFile (.file f) σ m = (.done (.file g), m') := newFile_of_copy hl hcopy
  -- What was there before is there afterwards, the same.
  have hlisted : Aside m (relisted m l) := Aside.addList m _
  have hfiled : Aside m₂ m' := Aside.addFile m₂ c
  have hstays (w : Value) (hw : m.store.There w) : m'.store.There w := hfiled.there (hdup.there w (hlisted.there hw))
  have hsame (w : Value) (hw : m.store.There w) : m.store.SameAt m'.store w :=
    ((hlisted.sameAt hw).trans (hdup.same w (hlisted.there hw))).trans
      (hfiled.sameAt (hdup.there w (hlisted.there hw)))
  have hsameFile : m.store.SameFile made m'.store f := fun w hw => hsame w (hthere w hw)
  -- The copy, its list and its bags.
  have hfile : m'.store.file g = c := by simp [m', g, Store.file, Store.addFile]
  have hlist : m'.store.list l' = m.store.list l := by
    have hmade : (relisted m l).store.list l' = m.store.list l := by simp [l', Store.list, Store.addList]
    have hthere' : (relisted m l).store.There (.list l') := by simp [l', Store.There, Store.addList]
    have hkept := (hdup.same _ hthere').trans (hfiled.sameAt (hdup.there _ hthere'))
    exact Eq.trans hkept hmade
  have hwithin (w : Value) : m'.store.Within made v w ↔ m₂.store.Within made v w :=
    Store.within_congr fun w hw => hfiled.sameAt (hdup.fresh w hw).1
  have halike : m.store.Alike made (m.store.file f).bags m'.store v := by
    apply hdup.alike.congr
    · intro a ha
      have hbefore : ∀ w, m.store.Within made (m.store.file f).bags w → m.store.SameAt (relisted m l).store w :=
        fun w hw => hlisted.sameAt (hthere w (.inr (.inr hw)))
      exact (hbefore a ((Store.within_congr hbefore).mp ha)).symm
    · exact fun b hb => hfiled.sameAt (hdup.fresh b hb).1
  -- All of the copy is new.
  have hside (w : Value) (hw : m'.store.Side made g w) : m'.store.There w ∧ (w.isMutable = true → ¬ m.store.There w) := by
    unfold Store.Side at hw
    rw [hfile] at hw
    rcases hw with rfl | rfl | hw
    · refine ⟨by simp [m', g, Store.There, Store.addFile], fun _ hold => ?_⟩
      exact Nat.lt_irrefl _ (hdup.there _ (hlisted.there hold))
    · refine ⟨?_, fun _ hold => Nat.lt_irrefl _ hold⟩
      exact hfiled.there (hdup.there (.list l') (by simp [l', Store.There, Store.addList]))
    · obtain ⟨hnow, hfresh⟩ := hdup.fresh w ((hwithin w).mp hw)
      exact ⟨hfiled.there hnow, fun hmutable hold => hfresh hmutable (hlisted.there hold)⟩
  have hseparate : m'.store.Separate made f g := by
    refine ⟨fun w hf hg => ?_, fun w hf => hstays w (hthere w (hsameFile.side.mp hf)), fun w hg => (hside w hg).1⟩
    by_contra hmutable
    exact (hside w hg).2 (by simpa using hmutable) (hthere w (hsameFile.side.mp hf))
  have hne : l' ≠ l := by
    have hlt : m.store.There (.list l) := hthere _ (hl ▸ Store.side_messages f)
    exact Nat.ne_of_gt hlt
  have hshelf : m'.store.Shelved f ∧ m'.store.Shelved g := by
    obtain ⟨d, hd, -⟩ := hs.bags
    constructor
    · exact hs.of_sameFile hsameFile hstays
    · rw [hd] at halike
      refine hs.of_alike hd halike (fun w hw => (hside w (.inr (.inr ?_))).1) ?_ hfile
      · rwa [hfile]
      · simp [m', g, Store.addFile]
  have hcopied : Copied made m f m' g := by
    refine ⟨by rw [hfile], by rw [hfile], by rw [hfile], by rw [hfile], by rw [hfile],
      ⟨l, l', hl, by rw [hfile], hne, hlist⟩, ?_, hsameFile, hseparate⟩
    rw [hfile]
    exact halike
  refine ⟨g, m', hnew, hcopied, hshelf.1, hshelf.2, ?_, ⟨l, ?_⟩, ⟨l', by rw [hfile]⟩, hseparate⟩
  · exact hplain.of_eq (show m₂.cells = m.cells from hdup.cells) (show m₂.store.tokens = m.store.tokens from hdup.tokens)
  · rw [hsameFile.file, hl]

end Work
end Treeworks
