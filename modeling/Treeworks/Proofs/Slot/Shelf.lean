import Treeworks.Proofs.Slot.Reading

/-! Where a file keeps its trees: a bag for each name, and in it a slot for the tree. Looking a tree up and parking one
need no request; work that writes elsewhere leaves all slots as they are. -/
namespace Treeworks

/-- Whether a value can be a part of a path. -/
def Value.isPathPart : Value → Bool
  | .null | .str _ => true
  | _ => false

theorem Value.eq_of_isPathPart {v : Value} (h : v.isPathPart = true) : v = .null ∨ ∃ t, v = .str t := by
  unfold Value.isPathPart at h
  split at h
  · exact .inl rfl
  · exact .inr ⟨_, rfl⟩
  · cases h

theorem Value.isScalar_of_isPathPart {v : Value} (h : v.isPathPart = true) : v.isScalar = true := by
  rcases Value.eq_of_isPathPart h with rfl | ⟨t, rfl⟩ <;> rfl

namespace Store

theorem dict_updateDict (s : Store) (i : Nat) (g : Entries → Entries) (j : Nat) :
    (s.updateDict i g).dict j = if i = j ∧ j < s.dicts.size then g (s.dict j) else s.dict j := by
  simp only [dict, updateDict, Array.getD_eq_getD_getElem?, Array.getElem?_modify]
  by_cases hij : i = j
  · subst hij
    by_cases hlt : i < s.dicts.size <;> simp [hlt]
  · simp [hij]

theorem dict_addDict_self (s : Store) (t : Entries) : (s.addDict t).2.dict s.dicts.size = t := by
  simp [dict, addDict]

/-- The bag that a file has under a name, if it has one. -/
def bag? (s : Store) (f : Nat) (name : String) : Option Nat :=
  match (s.file f).bags with
  | .dict d =>
    match (s.dict d).named? name with
    | some (.dict b) => some b
    | _ => none
  | _ => none

/-- The tree that is parked on a file under a name; null if there is none. -/
def parked (s : Store) (f : Nat) (name : String) : Value :=
  match s.bag? f name with
  | some b => (s.dict b).named "tree"
  | none => .null

/-- Whether a dictionary holds the bags of a file or is one of them. -/
def OnShelf (s : Store) (f i : Nat) : Prop := (s.file f).bags = .dict i ∨ ∃ name, s.bag? f name = some i

/-- A file as it is typed, with a dictionary of bags. No two names have the same bag. -/
structure Shelved (s : Store) (f : Nat) : Prop where
  file_lt : f < s.files.size
  attrs : (s.file f).attrs = []
  filename : (s.file f).filename.isPathPart = true
  directory : (s.file f).directory.isPathPart = true
  extension : (s.file f).extension.isPathPart = true
  bags : ∃ d, (s.file f).bags = .dict d ∧ d < s.dicts.size ∧
    ∀ name v, (s.dict d).named? name = some v → ∃ b, v = .dict b ∧ b < s.dicts.size ∧ b ≠ d
  apart : ∀ {name other b}, s.bag? f name = some b → s.bag? f other = some b → name = other

namespace Shelved
variable {s s' : Store} {f b : Nat} {name : String}

theorem lt_of_onShelf (h : s.Shelved f) {i : Nat} (hi : s.OnShelf f i) : i < s.dicts.size := by
  obtain ⟨d, hd, hlt, hbags⟩ := h.bags
  rcases hi with hi | ⟨name, hi⟩
  · rw [hd] at hi
    cases hi
    exact hlt
  · simp only [bag?, hd] at hi
    split at hi
    · rename_i b hb
      obtain ⟨b', hb', hb'lt, -⟩ := hbags name _ hb
      cases hi
      cases hb'
      exact hb'lt
    · cases hi

/-- The bag under a name depends on the shelf alone. -/
theorem bag_congr (hfile : s'.file f = s.file f) (hdicts : ∀ i, s.OnShelf f i → s'.dict i = s.dict i) (name : String) :
    s'.bag? f name = s.bag? f name := by
  unfold bag?
  rw [hfile]
  split
  · rename_i d hd
    rw [hdicts d (.inl hd)]
  · rfl

/-- What happens to other files and other dictionaries leaves the shelf and its trees as they are. -/
theorem congr (h : s.Shelved f) (hfile : s'.file f = s.file f) (hfiles : s.files.size ≤ s'.files.size)
    (hdicts : ∀ i, s.OnShelf f i → s'.dict i = s.dict i) (hsize : s.dicts.size ≤ s'.dicts.size) :
    s'.Shelved f ∧ (∀ name, s'.parked f name = s.parked f name) ∧ ∀ i, s'.OnShelf f i ↔ s.OnShelf f i := by
  have hbag := bag_congr hfile hdicts
  refine ⟨?_, fun name => ?_, fun i => ?_⟩
  · obtain ⟨d, hd, hlt, hbags⟩ := h.bags
    refine ⟨Nat.lt_of_lt_of_le h.file_lt hfiles, hfile ▸ h.attrs, hfile ▸ h.filename, hfile ▸ h.directory,
      hfile ▸ h.extension, ⟨d, hfile ▸ hd, Nat.lt_of_lt_of_le hlt hsize, fun name v hv => ?_⟩, ?_⟩
    · rw [hdicts d (.inl hd)] at hv
      obtain ⟨b, rfl, hb, hne⟩ := hbags name v hv
      exact ⟨b, rfl, Nat.lt_of_lt_of_le hb hsize, hne⟩
    · intro name other b
      rw [hbag, hbag]
      exact h.apart
  · unfold parked
    rw [hbag]
    split
    · rename_i b hb
      rw [hdicts b (.inr ⟨name, hb⟩)]
    · rfl
  · simp only [OnShelf, hfile, hbag]

/-- A bag is not the dictionary that holds the bags. -/
theorem bag_ne (h : s.Shelved f) {d : Nat} (hd : (s.file f).bags = .dict d) (hb : s.bag? f name = some b) : b ≠ d := by
  obtain ⟨d', hd', -, hbags⟩ := h.bags
  rw [hd] at hd'
  cases hd'
  unfold bag? at hb
  rw [hd] at hb
  dsimp only at hb
  split at hb
  · rename_i b' hb'
    obtain ⟨b'', hb'', -, hne⟩ := hbags name _ hb'
    cases hb''
    cases hb
    exact hne
  · cases hb

/-- A tree that is parked under a name takes the place of the one there; the trees under all other names stay. -/
theorem park (h : s.Shelved f) (hb : s.bag? f name = some b) (tree : Value) :
    let s' := s.updateDict b fun t => t.set (.str "tree") tree
    s'.Shelved f ∧ (∀ i, s'.OnShelf f i ↔ s.OnShelf f i) ∧
      ∀ other, s'.parked f other = if other = name then tree else s.parked f other := by
  intro s'
  obtain ⟨d, hd, hlt, hbags⟩ := h.bags
  have hblt : b < s.dicts.size := h.lt_of_onShelf (.inr ⟨name, hb⟩)
  have hbd : b ≠ d := h.bag_ne hd hb
  have hdict (i : Nat) (hi : i ≠ b) : s'.dict i = s.dict i := by
    rw [dict_updateDict, if_neg fun hc => hi hc.1.symm]
  have hsize : s'.dicts.size = s.dicts.size := by simp [s', updateDict]
  -- The shelf is another dictionary than the bag, so that each name leads to the bag it led to.
  have hbag : ∀ other, s'.bag? f other = s.bag? f other := by
    intro other
    unfold bag?
    rw [show s'.file f = s.file f from rfl, hd]
    dsimp only
    rw [hdict d hbd.symm]
  refine ⟨⟨h.file_lt, h.attrs, h.filename, h.directory, h.extension, ⟨d, hd, hsize ▸ hlt, ?_⟩, ?_⟩, fun i => ?_, ?_⟩
  · intro other v hv
    rw [hdict d hbd.symm] at hv
    rw [hsize]
    exact hbags other v hv
  · intro n n' i
    rw [hbag, hbag]
    exact h.apart
  · unfold OnShelf
    simp only [hbag]
    rfl
  · intro other
    unfold parked
    rw [hbag]
    by_cases ho : other = name
    · subst ho
      rw [hb, if_pos rfl]
      dsimp only
      rw [dict_updateDict, if_pos ⟨rfl, hblt⟩, Entries.named, Entries.named?_set, if_pos rfl]
      rfl
    · rw [if_neg ho]
      split
      · rename_i i hi
        have hib : i ≠ b := fun e => ho (h.apart hi (e ▸ hb))
        rw [hdict i hib]
      · rfl

/-- A new bag is empty; a file that gets one has the same trees as before. -/
theorem enter (h : s.Shelved f) {d : Nat} (hd : (s.file f).bags = .dict d) (hb : (s.dict d).named? name = none) :
    let s' := (s.addDict []).2.updateDict d fun t => t.set (.str name) (.dict s.dicts.size)
    s'.Shelved f ∧ s'.bag? f name = some s.dicts.size ∧
      (∀ i, s'.OnShelf f i → i = s.dicts.size ∨ s.OnShelf f i) ∧
      ∀ other, s'.parked f other = s.parked f other := by
  intro s'
  obtain ⟨d', hd', hlt, hbags⟩ := h.bags
  obtain rfl : d = d' := by
    rw [hd] at hd'
    cases hd'
    rfl
  have hsize : s'.dicts.size = s.dicts.size + 1 := by simp [s', updateDict, addDict]
  have hold (i : Nat) (hi : i < s.dicts.size) (hne : i ≠ d) : s'.dict i = s.dict i := by
    rw [dict_updateDict, if_neg fun hc => hne hc.1.symm]
    exact (Aside.addDict { (default : Machine) with store := s } []).dicts.same i hi []
  have hshelf : s'.dict d = (s.dict d).set (.str name) (.dict s.dicts.size) := by
    have hdd : (s.addDict []).2.dict d = s.dict d :=
      (Aside.addDict { (default : Machine) with store := s } []).dicts.same d hlt []
    rw [dict_updateDict, if_pos ⟨rfl, by simp [addDict]; omega⟩, hdd]
  have hnew : s'.dict s.dicts.size = [] := by
    rw [dict_updateDict, if_neg fun hc => Nat.ne_of_lt hlt hc.1]
    exact dict_addDict_self s []
  have hbag : ∀ other, s'.bag? f other = if other = name then some s.dicts.size else s.bag? f other := by
    intro other
    unfold bag?
    rw [show s'.file f = s.file f from rfl, hd]
    dsimp only
    rw [hshelf, Entries.named?_set]
    by_cases ho : name = other
    · subst ho
      simp
    · simp [ho, Ne.symm ho]
  have hnone : s.bag? f name = none := by
    unfold bag?
    rw [hd]
    dsimp only
    rw [hb]
  -- The bag is new, so that no other name leads to it.
  have hfresh (other : String) : s.bag? f other ≠ some s.dicts.size :=
    fun e => Nat.lt_irrefl _ (h.lt_of_onShelf (.inr ⟨other, e⟩))
  refine ⟨⟨h.file_lt, h.attrs, h.filename, h.directory, h.extension, ⟨d, hd, by omega, ?_⟩, ?_⟩, ?_, ?_, ?_⟩
  · intro other v hv
    rw [hshelf, Entries.named?_set] at hv
    split at hv
    · cases hv
      exact ⟨s.dicts.size, rfl, by omega, fun e => Nat.lt_irrefl _ (e ▸ hlt)⟩
    · obtain ⟨b, rfl, hblt, hne⟩ := hbags other v hv
      exact ⟨b, rfl, by omega, hne⟩
  · intro n n' i hn hn'
    rw [hbag] at hn hn'
    split at hn <;> split at hn'
    · simp_all
    · cases hn
      exact absurd hn' (hfresh _)
    · cases hn'
      exact absurd hn (hfresh _)
    · exact h.apart hn hn'
  · rw [hbag, if_pos rfl]
  · rintro i (hi | ⟨other, hi⟩)
    · exact .inr (.inl hi)
    · rw [hbag] at hi
      split at hi
      · cases hi
        exact .inl rfl
      · exact .inr (.inr ⟨other, hi⟩)
  · intro other
    unfold parked
    rw [hbag]
    by_cases ho : other = name
    · subst ho
      rw [if_pos rfl, hnone]
      dsimp only
      rw [hnew]
      rfl
    · rw [if_neg ho]
      split
      · rename_i i hi
        rw [hold i (h.lt_of_onShelf (.inr ⟨other, hi⟩)) (h.bag_ne hd hi)]
      · rfl

end Shelved
end Store

namespace Work
variable {m : Machine} {f : Nat}

theorem attr?_of_shelved (h : m.store.Shelved f) {name : String}
    (hname : Table.get? (Store.carrierAttrs (m.store.file f)) name = none) (hclass : name ≠ "__class__") :
    m.store.attr? (.file f) name = none := by
  have hown : m.store.ownAttr? (.file f) name = none := by
    unfold Store.ownAttr?
    dsimp only
    rw [h.attrs]
    exact hname
  unfold Store.attr?
  rw [hown]
  simp [hclass]

/-- What stands in place of a method of a file is asked for; a file as it is typed has nothing there. -/
theorem gives_overridden (h : m.store.Shelved f) {name : String}
    (hname : Table.get? (Store.carrierAttrs (m.store.file f)) name = none) (hclass : name ≠ "__class__")
    (args : List Value) {usual : Work Value} {a : Value} {m' : Machine} (husual : usual.Gives m a m') :
    (overridden (.file f) name args usual).Gives m a m' := by
  refine (gives_query _ m).bind ?_
  rw [attr?_of_shelved h hname hclass]
  exact husual

/-- Whether a part of a path is there. -/
theorem reads_truth_part {v : Value} (h : v.isPathPart = true) :
    (truth v).Reads m fun b => b = true → ∃ t, v = .str t := by
  refine ⟨m.store.truthy v, fun hb => ?_, ?_⟩
  · rcases Value.eq_of_isPathPart h with rfl | ht
    · cases hb
    · exact ht
  · exact gives_truth_of_isScalar (Value.isScalar_of_isPathPart h) m

/-- The path of a file is read without a request; it is a scalar. -/
theorem reads_filePath (h : m.store.Shelved f) : (filePath? f).Reads m (·.isScalar = true) := by
  have hformatted (t : String) : (formattedAt 949 (.str t)).Reads m fun _ => True :=
    ⟨t, trivial, gives_formatted_str 947 t m⟩
  have hpath : (filePath f).Reads m fun v => ∃ t, v = .str t := by
    unfold filePath writtenDepth pathAt
    suffices hrest : Reads _ m fun v => ∃ t, v = Value.str t by
      obtain ⟨v, hv, hgives⟩ := hrest
      exact ⟨v, hv, gives_overridden h rfl (by decide) [] hgives⟩
    refine (gives_query _ m).reads.bind ?_
    rintro _ rfl
    refine (reads_truth_part h.filename).bind fun hasName hfilename => ?_
    cases hasName with
    | false => exact reads_pure ⟨"", rfl⟩ m
    | true =>
      obtain ⟨name, hname⟩ := hfilename rfl
      rw [hname]
      refine (reads_truth_part h.extension).bind fun hasExtension hext => ?_
      extract_lets ending
      have hending (path : String) : (ending (.str path)).Reads m fun v => ∃ t, v = .str t := by
        refine (reads_truth_part h.directory).bind fun hasDirectory hdirectory => ?_
        cases hasDirectory with
        | false => exact reads_pure ⟨path, rfl⟩ m
        | true =>
          obtain ⟨dir, hdir⟩ := hdirectory rfl
          rw [hdir]
          refine (reads_pure (P := fun _ => True) trivial m).bind fun _ _ => ?_
          exact (hformatted path).bind fun _ _ => reads_pure ⟨_, rfl⟩ m
      cases hasExtension with
      | false =>
        refine (reads_pure (P := (· = .str name)) rfl m).bind ?_
        rintro _ rfl
        exact hending name
      | true =>
        obtain ⟨ext, hext⟩ := hext rfl
        rw [hext]
        refine (hformatted name).bind fun start _ => (hformatted ext).bind fun ending _ => ?_
        refine (reads_pure (P := (· = .str (start ++ "." ++ ending))) rfl m).bind ?_
        rintro _ rfl
        exact hending _
  refine hpath.bind fun v hv => ?_
  obtain ⟨t, rfl⟩ := hv
  refine ⟨if m.store.truthy (.str t) then .str t else .null, ?_, gives_trueOr_of_isScalar rfl _ m⟩
  split <;> rfl

end Work
end Treeworks
