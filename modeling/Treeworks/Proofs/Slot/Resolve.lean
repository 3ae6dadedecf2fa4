import Mathlib.Logic.Function.Basic
import Treeworks.Proofs.Slot.Shelf

/-! Which tree a call works on, and what becomes of the slot: both are settled without a request, and nothing else that
was there changes. -/
namespace Treeworks

namespace Store

/-- Whether an error tells that there is no tree. -/
def IsMissingTree (s : Store) (e : Value) : Prop :=
  ∃ i engine, e = .fault i ∧ (s.fault i).detail = .engine engine ∧ engine.kind = .expectedNode

/-- What is noted of an error does not change what it is. -/
theorem detail_updateFault (s : Store) (i : Nat) {g : Fault → Fault} (hg : ∀ x, (g x).detail = x.detail) (j : Nat) :
    ((s.updateFault i g).fault j).detail = (s.fault j).detail := by
  simp only [fault, updateFault, Array.getD_eq_getD_getElem?, Array.getElem?_modify]
  split
  · cases s.faults[j]? with
    | none => rfl
    | some x => exact hg x
  · rfl

theorem detail_withoutReturn (s : Store) (e : Value) (fuel : Nat) (handled : Value) (j : Nat) :
    ((s.withoutReturn e fuel handled).fault j).detail = (s.fault j).detail := by
  fun_induction withoutReturn s e fuel handled with
  | case1 =>
    apply detail_updateFault
    exact fun _ => rfl
  | case2 _ _ _ _ ih => exact ih
  | case3 => rfl

theorem detail_noteRaised (s : Store) (e handled : Value) (j : Nat) :
    ((s.noteRaised e handled).fault j).detail = (s.fault j).detail := by
  unfold noteRaised
  split
  · rename_i i
    have hraised : ((s.updateFault i fun x => { x with raised := true }).fault j).detail = (s.fault j).detail := by
      apply detail_updateFault
      exact fun _ => rfl
    dsimp only
    split
    · exact hraised
    · refine (detail_updateFault _ _ ?_ j).trans ((detail_withoutReturn _ _ _ _ j).trans hraised)
      exact fun _ => rfl
  · rfl

end Store

/-- The trees that are parked on a file, by name. -/
def Machine.trees (m : Machine) (f : Nat) : String → Value := m.store.parked f

/-- What happens elsewhere than on the shelf of a file: what is new may be added, and may come onto the shelf. -/
structure Beside (f : Nat) (m m' : Machine) : Prop where
  shelved : m'.store.Shelved f
  size : m.store.dicts.size ≤ m'.store.dicts.size
  dicts : ∀ i < m.store.dicts.size, ¬ m.store.OnShelf f i → m'.store.dict i = m.store.dict i
  shelf : ∀ i < m.store.dicts.size, m'.store.OnShelf f i → m.store.OnShelf f i
  types : ∀ i, (m.store.type i).Alike (m'.store.type i)
  processors : m'.store.processors = m.store.processors
  cells : m'.cells = m.cells
  cell : m'.cell = m.cell
  tokens : m'.store.tokens = m.store.tokens

namespace Beside
variable {f : Nat} {a b c m m' : Machine}

theorem trans (h : Beside f a b) (h' : Beside f b c) : Beside f a c where
  shelved := h'.shelved
  size := Nat.le_trans h.size h'.size
  dicts i hi hout := by
    have hout' : ¬ b.store.OnShelf f i := fun e => hout (h.shelf i hi e)
    rw [h'.dicts i (Nat.lt_of_lt_of_le hi h.size) hout', h.dicts i hi hout]
  shelf i hi e := h.shelf i hi (h'.shelf i (Nat.lt_of_lt_of_le hi h.size) e)
  types i :=
    { ancestry := (h'.types i).ancestry.trans (h.types i).ancestry
      role := (h'.types i).role.trans (h.types i).role
      attrs := fun name hname => ((h'.types i).attrs name hname).trans ((h.types i).attrs name hname) }
  processors := h'.processors.trans h.processors
  cells := h'.cells.trans h.cells
  cell := h'.cell.trans h.cell
  tokens := h'.tokens.trans h.tokens

/-- Reading leaves the shelf of a file and its trees as they are. -/
theorem of_aside (h : m.store.Shelved f) (haside : Aside m m') : Beside f m m' ∧ m'.trees f = m.trees f := by
  obtain ⟨hshelved, hparked, hshelf⟩ := h.congr (haside.files.same f h.file_lt default) haside.files.size
    (fun i hi => haside.dicts.same i (h.lt_of_onShelf hi) []) haside.dicts.size
  refine ⟨?_, funext hparked⟩
  exact ⟨hshelved, haside.dicts.size, fun i hi _ => haside.dicts.same i hi [], fun i _ => (hshelf i).mp, haside.types,
    haside.processors, haside.cells, haside.cell, haside.tokens⟩

end Beside

/-- The machine after the dictionary of a file's bags has got an empty one under a name. -/
def Machine.bagged (m : Machine) (d : Nat) (name : String) : Machine :=
  { m with store := (m.store.addDict []).2.updateDict d fun t => t.set (.str name) (.dict m.store.dicts.size) }

namespace Work
variable {m : Machine} {f b : Nat} {name : String}

/-- A tree is put into a bag of the file. -/
theorem gives_setTree (h : m.store.Shelved f) (hb : m.store.bag? f name = some b) (tree : Value) :
    ∃ m', (setItem (.dict b) (.str "tree") tree).Gives m () m' ∧ Beside f m m' ∧
      m'.trees f = Function.update (m.trees f) name tree := by
  refine ⟨_, gives_setEntry b "tree" tree m, ?_, ?_⟩
  · obtain ⟨hshelved, hshelf, -⟩ := h.park hb tree
    refine ⟨hshelved, by simp [Store.updateDict], fun i _ hout => ?_, fun i _ => (hshelf i).mp,
      fun i => ⟨rfl, rfl, fun _ _ => rfl⟩, rfl, rfl, rfl, rfl⟩
    have hib : b ≠ i := fun e => hout (e ▸ .inr ⟨name, hb⟩)
    rw [Store.dict_updateDict, if_neg fun hc => hib hc.1]
  · funext other
    rw [Function.update_apply]
    exact (h.park hb tree).2.2 other

/-- The tree in the bag of a name is the one that is parked there. -/
theorem gives_treeIn_bag (hb : m.store.bag? f name = some b) : (treeIn (.dict b)).Gives m (m.trees f name) m := by
  have hparked : m.trees f name = (m.store.dict b).named "tree" := by
    unfold Machine.trees Store.parked
    rw [hb]
  rw [hparked]
  exact gives_treeIn b m

/-- A bag that is there is found, without a request; the one made meanwhile is nobody's. -/
theorem gives_bagOf_found (h : m.store.Shelved f) {d : Nat} (hd : (m.store.file f).bags = .dict d) {v : Value}
    (hfound : (m.store.dict d).named? name = some v) :
    (bagOf f (.str name)).Gives m v { m with store := (m.store.addDict []).2 } := by
  obtain ⟨d', hd', hlt, -⟩ := h.bags
  obtain rfl : d = d' := Value.dict.inj (hd.symm.trans hd')
  have hmake : (newDict []).Gives m (.dict m.store.dicts.size) { m with store := (m.store.addDict []).2 } := fun _ => rfl
  have hdict : (m.store.addDict []).2.dict d = m.store.dict d := (Aside.addDict m []).dicts.same d hlt []
  refine gives_overridden h rfl (by decide) _ (hmake.bind ((gives_query _ _).bind ?_))
  rw [show Store.file (m.store.addDict []).2 f = m.store.file f from rfl, hd]
  refine (gives_query _ _).bind ?_
  rw [hdict]
  refine (gives_valueUnder (m.store.dict d) name _).bind ?_
  rw [hfound]
  exact gives_pure _ _

/-- A bag that is missing is made. -/
theorem gives_bagOf_new (h : m.store.Shelved f) {d : Nat} (hd : (m.store.file f).bags = .dict d)
    (hfound : (m.store.dict d).named? name = none) :
    (bagOf f (.str name)).Gives m (.dict m.store.dicts.size) (m.bagged d name) := by
  obtain ⟨d', hd', hlt, -⟩ := h.bags
  obtain rfl : d = d' := Value.dict.inj (hd.symm.trans hd')
  have hmake : (newDict []).Gives m (.dict m.store.dicts.size) { m with store := (m.store.addDict []).2 } := fun _ => rfl
  have hdict : (m.store.addDict []).2.dict d = m.store.dict d := (Aside.addDict m []).dicts.same d hlt []
  refine gives_overridden h rfl (by decide) _ (hmake.bind ((gives_query _ _).bind ?_))
  rw [show Store.file (m.store.addDict []).2 f = m.store.file f from rfl, hd]
  refine (gives_query _ _).bind ?_
  rw [hdict]
  refine (gives_valueUnder (m.store.dict d) name _).bind ?_
  rw [hfound]
  exact (gives_setEntry _ _ _ _).bind (gives_pure _ _)

/-- The bag of a name is there or made, without a request. -/
theorem gives_bagOf (h : m.store.Shelved f) (name : String) :
    ∃ b m', (bagOf f (.str name)).Gives m (.dict b) m' ∧ m'.store.bag? f name = some b ∧ Beside f m m' ∧
      m'.trees f = m.trees f := by
  obtain ⟨d, hd, hlt, hbags⟩ := h.bags
  obtain ⟨hbeside, htrees⟩ := Beside.of_aside h (Aside.addDict m [])
  cases hfound : (m.store.dict d).named? name with
  | some v =>
    obtain ⟨b, rfl, -, -⟩ := hbags name v hfound
    have hbag : m.store.bag? f name = some b := by
      unfold Store.bag?
      rw [hd]
      dsimp only
      rw [hfound]
    have hfile : (m.store.addDict []).2.file f = m.store.file f := rfl
    have hsame : (m.store.addDict []).2.bag? f name = m.store.bag? f name :=
      Store.Shelved.bag_congr hfile (fun i hi => (Aside.addDict m []).dicts.same i (h.lt_of_onShelf hi) []) name
    exact ⟨b, _, gives_bagOf_found h hd hfound, hsame.trans hbag, hbeside, htrees⟩
  | none =>
    obtain ⟨hshelved, hbag, hshelf, hparked⟩ := h.enter hd hfound
    refine ⟨m.store.dicts.size, m.bagged d name, gives_bagOf_new h hd hfound, hbag, ?_, funext hparked⟩
    have hsize : (m.bagged d name).store.dicts.size = m.store.dicts.size + 1 := by
      simp [Machine.bagged, Store.updateDict, Store.addDict]
    refine ⟨hshelved, by omega, fun i hi hout => ?_, fun i hi he => ?_,
      fun i => ⟨rfl, rfl, fun _ _ => rfl⟩, rfl, rfl, rfl, rfl⟩
    · have hid : d ≠ i := fun e => hout (e ▸ .inl hd)
      unfold Machine.bagged
      rw [Store.dict_updateDict, if_neg fun hc => hid hc.1]
      exact (Aside.addDict m []).dicts.same i hi []
    · exact (hshelf i he).resolve_left (Nat.ne_of_lt hi)

/-- A tree is parked under a name, in place of any other. -/
theorem gives_park (h : m.store.Shelved f) (name : String) (tree : Value) :
    ∃ m', Gives (do setItem (← bagOf f (.str name)) (.str "tree") tree) m () m' ∧ Beside f m m' ∧
      m'.trees f = Function.update (m.trees f) name tree := by
  obtain ⟨b, m₁, hbag, hfound, hbeside, htrees⟩ := gives_bagOf h name
  obtain ⟨m₂, hset, hbeside', htrees'⟩ := gives_setTree hbeside.shelved hfound tree
  refine ⟨m₂, hbag.bind hset, hbeside.trans hbeside', ?_⟩
  rw [htrees', htrees]

/-- Whether work raises an error and leaves a machine, whatever its requests would be answered. -/
def Raises {α : Type} (w : Work α) (m : Machine) (e : Value) (m' : Machine) : Prop := ∀ σ, w σ m = (.raised e, m')

section
variable {α β : Type} {m' m'' : Machine} {e : Value}

theorem Raises.bind {w : Work α} (h : w.Raises m e m') (f : α → Work β) : (w >>= f).Raises m e m' := by
  intro σ
  rw [bind_eq, h σ]

/-- What comes after work that gives something fails if the rest does. -/
theorem Gives.raises_bind {w : Work α} {f : α → Work β} {a : α} (h : w.Gives m a m') (hf : (f a).Raises m' e m'') :
    (w >>= f).Raises m e m'' := by
  intro σ
  rw [h.bind_eq]
  exact hf σ

end

/-- A tree that was given wins; it takes an empty slot. Without one the tree in the slot is taken. -/
theorem gives_resolve (h : m.store.Shelved f) {given : Value} (hchosen : chosenTree given (m.trees f name) ≠ .null) :
    ∃ m', (resolveTree (.str name) given f).Gives m (chosenTree given (m.trees f name)) m' ∧ Beside f m m' ∧
      m'.trees f = Function.update (m.trees f) name (parkedTree given (m.trees f name)) := by
  obtain ⟨b, m₁, hbag, hfound, hbeside, htrees⟩ := gives_bagOf h name
  have htree := gives_treeIn_bag hfound
  rw [htrees] at htree
  by_cases hnull : m.trees f name = .null
  · obtain ⟨m₂, hset, hbeside', htrees'⟩ := gives_setTree hbeside.shelved hfound (parkedTree given (m.trees f name))
    refine ⟨m₂, hbag.bind (htree.bind ?_), hbeside.trans hbeside', by rw [htrees', htrees]⟩
    rw [if_neg hchosen, if_pos hnull]
    exact hset.bind (gives_pure _ _)
  · refine ⟨m₁, hbag.bind (htree.bind ?_), hbeside, ?_⟩
    · rw [if_neg hchosen, if_neg hnull]
      exact gives_pure _ _
    · rw [htrees, parkedTree, if_neg hnull, Function.update_eq_self]

/-- Without any tree an error is raised, and no slot changes. -/
theorem raises_resolve (h : m.store.Shelved f) {given : Value} (hchosen : chosenTree given (m.trees f name) = .null) :
    ∃ e m', (resolveTree (.str name) given f).Raises m e m' ∧ m'.store.IsMissingTree e ∧ Beside f m m' ∧
      m'.trees f = m.trees f := by
  obtain ⟨b, m₁, hbag, hfound, hbeside, htrees⟩ := gives_bagOf h name
  have htree := gives_treeIn_bag hfound
  rw [htrees] at htree
  obtain ⟨path, -, hpath⟩ := reads_filePath hbeside.shelved
  let context := m₁.store.contextFor (.str name) path
  let m₂ : Machine := { m₁ with store := context.2 }
  have hcontext : Aside m₁ m₂ :=
    (Aside.addDict m₁ []).trans { Aside.addDict { m₁ with store := (m₁.store.addDict []).2 } _ with }
  let missing : EngineFault := ⟨.expectedNode, .str "Expected node, got None",
    .category EngineKind.expectedNode.category, context.1, .null, .null, .null⟩
  let m₃ : Machine :=
    { m₂ with store := (m₂.store.addFault (.engine missing) [.str "Expected node, got None"] .null).2 }
  have hfault : Aside m₂ m₃ := Aside.addFault m₂ _ _ _
  let e : Value := .fault m₂.store.faults.size
  have hnoted := Aside.noteRaised m₃ e (m₃.handling.headD .null)
  obtain ⟨hbeside', htrees'⟩ := Beside.of_aside hbeside.shelved ((hcontext.trans hfault).trans hnoted)
  refine ⟨e, _, fun σ => ?_, ?_, hbeside.trans hbeside', htrees'.trans htrees⟩
  · unfold resolveTree
    rw [hbag.bind_eq, htree.bind_eq, if_pos hchosen, hpath.bind_eq]
    rfl
  · refine ⟨m₂.store.faults.size, missing, rfl, ?_, rfl⟩
    rw [Store.detail_noteRaised]
    simp [m₃, Store.fault, Store.addFault, Store.addTuple, Fault.new]

end Work
end Treeworks
