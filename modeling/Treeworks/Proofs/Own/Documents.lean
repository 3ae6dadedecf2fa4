import Treeworks.Proofs.Own.Making

/-! Deep copies of documents, which are made of lists, of dictionaries under texts, and of what is its own copy. Objects in
a document may be there several times, or within themselves. A copy of a document is one with the same structure, all of
which is new, and all that was there before is as it was. -/
namespace Treeworks

/-- Whether a value is its own copy, whoever is asked. -/
def Value.isAtom : Value → Bool
  | .type _ | .native _ | .hook _ | .slot .. => true
  | v => v.isScalar

theorem Value.isMutable_of_isAtom {v : Value} (h : v.isAtom = true) : v.isMutable = false := by
  cases v <;> first | rfl | cases h

theorem Entries.keys_append (t u : Entries) : Entries.keys (t ++ u) = t.keys ++ u.keys := List.map_append

theorem Entries.parts_append (t u : Entries) : Entries.parts (t ++ u) = t.parts ++ u.parts := List.flatMap_append

/-- A text that is no key yet is written behind all others. -/
theorem Entries.set_of_notMem {t : Entries} {name : String} (h : .str name ∉ t.keys) (v : Value) :
    t.set (.str name) v = t ++ [(.str name, v)] := by
  induction t with
  | nil => rfl
  | cons e t ih =>
    obtain ⟨hne, hrest⟩ := not_or.mp (mt List.mem_cons.mpr h)
    rw [set, Value.sameKey_str, decide_eq_false (Ne.symm hne), ih hrest]
    rfl

namespace Store
variable (made : Value → List Value) (s : Store)

/-- Whether a value can stand in a document: it is a list, a dictionary under different texts, or an atom in which nothing
is. -/
inductive Item : Value → Prop
  | list {i : Nat} (stands : s.Stands (.list i)) : Item (.list i)
  | dict {i : Nat} (stands : s.Stands (.dict i)) (texts : ∀ k ∈ (s.dict i).keys, ∃ name, k = .str name)
      (distinct : (s.dict i).keys.Nodup) : Item (.dict i)
  | atom {v : Value} (atom : v.isAtom = true) (empty : made v = []) : Item v

/-- Whether a value and all that is within it can stand in a document. -/
def IsDocument (v : Value) : Prop := ∀ w, s.Within made v w → s.Item made w

variable {made s} {s' : Store} {v w : Value}

theorem Item.of_same (h : s.Item made v) (hstands : v.isMutable = true → s'.Stands v) (hsame : s.SameAt s' v) :
    s'.Item made v := by
  cases h with
  | list => exact .list (hstands rfl)
  | dict _ htexts hdistinct =>
    have hdict : s'.dict _ = s.dict _ := hsame
    exact .dict (hstands rfl) (hdict ▸ htexts) (hdict ▸ hdistinct)
  | atom hatom hempty => exact .atom hatom hempty

theorem IsDocument.of_mem (h : s.IsDocument made v) (hw : w ∈ s.inside made v) : s.IsDocument made w :=
  fun u hu => h u (.trans (.single hw) hu)

/-- A document that is there and the same is one still. -/
theorem IsDocument.of_same (h : s.IsDocument made v) (hstands : ∀ w, s.Within made v w → w.isMutable = true → s'.Stands w)
    (hsame : ∀ w, s.Within made v w → w.isMutable = true → s.SameAs s' w) : s'.IsDocument made v := by
  intro w hw
  have hin := (within_congr_of_isMutable hsame).mp hw
  refine (h w hin).of_same (hstands w hin) ?_
  cases hmutable : w.isMutable with
  | true => exact (hsame w hin hmutable).sameAt
  | false => exact sameAt_of_not_isMutable hmutable

end Store

namespace Copying
open Store (Item IsDocument)

/-- Objects, each with its copy. -/
abbrev Known := List (Value × Value)

/-- Whether one value is a copy of another: it was recorded as one, or the other is its own copy. -/
def Paired (made : Value → List Value) (known : Known) (v w : Value) : Prop :=
  (v, w) ∈ known ∨ v = w ∧ v.isAtom = true ∧ made v = []

/-- What has been recorded of objects in a store by some later point: copies are of the same kind, one for each object, and
new; and they hold copies of what the objects hold, apart from those that are still open. -/
structure Ledger (made : Value → List Value) (s : Store) (opened : List Value) (known : Known) (s' : Store) : Prop where
  items : ∀ e ∈ known, s.Item made e.1 ∧ e.1.isAtom = false
  shape : ∀ e ∈ known, e.2.shape = e.1.shape
  stands : ∀ e ∈ known, s'.Stands e.2
  new : ∀ e ∈ known, ¬ s.Stands e.2
  oneToOne : ∀ e ∈ known, ∀ e' ∈ known, e.1 = e'.1 ↔ e.2 = e'.2
  mirrors : ∀ e ∈ known, e.1 ∉ opened → List.Forall₂ (Paired made known) (s.inside made e.1) (s'.inside made e.2)

variable {made : Value → List Value} {s s' : Store} {opened : List Value} {known known' : Known} {v w : Value}

theorem Paired.mono (h : Paired made known v w) (hknown : known ⊆ known') : Paired made known' v w :=
  h.imp_left fun h => hknown h

theorem forall₂_mono {vs ws : List Value} (h : List.Forall₂ (Paired made known) vs ws) (hknown : known ⊆ known') :
    List.Forall₂ (Paired made known') vs ws :=
  h.imp fun _ _ h => h.mono hknown

/-- A list or a dictionary has the copy that was found for it. -/
theorem mem_of_find? {found : Value × Value} (h : known.find? (fun e => e.1 = v) = some found) : (v, found.2) ∈ known := by
  have hv : found.1 = v := of_decide_eq_true (List.find?_some (p := fun e : Value × Value => e.1 = v) h)
  exact hv ▸ List.mem_of_find?_eq_some h

namespace Ledger

theorem nil (made : Value → List Value) (s s' : Store) (opened : List Value) : Ledger made s opened [] s' := by
  constructor <;> exact fun e he => absurd he List.not_mem_nil

/-- Lists are copied to lists, and dictionaries to dictionaries. -/
theorem kinds (h : Ledger made s opened known s') {e : Value × Value} (he : e ∈ known) :
    (∃ i j, e = (.list i, .list j)) ∨ ∃ i j, e = (.dict i, .dict j) := by
  obtain ⟨hitem, hatom⟩ := h.items e he
  have hshape := h.shape e he
  obtain ⟨a, b⟩ := e
  cases hitem with
  | list =>
    cases b with
    | list j => exact .inl ⟨_, j, rfl⟩
    | _ => cases hshape
  | dict =>
    cases b with
    | dict j => exact .inr ⟨_, j, rfl⟩
    | _ => cases hshape
  | atom h => cases hatom.symm.trans h

theorem isMutable (h : Ledger made s opened known s') {e : Value × Value} (he : e ∈ known) :
    e.1.isMutable = true ∧ e.2.isMutable = true := by
  obtain ⟨i, j, rfl⟩ | ⟨i, j, rfl⟩ := h.kinds he <;> exact ⟨rfl, rfl⟩

/-- What is its own copy has no other. -/
theorem eq_of_isAtom (h : Ledger made s opened known s') (hv : v.isAtom = true) (hpaired : Paired made known v w) : w = v := by
  obtain hmem | ⟨rfl, -⟩ := hpaired
  · cases hv.symm.trans (h.items _ hmem).2
  · rfl

/-- Nothing that is recorded changes while only what is open does. -/
theorem of_retains {V : Value → Prop} {m m' : Machine} (h : Ledger made s opened known m.store) (hretains : m.Retains V m')
    (hV : ∀ e ∈ known, e.1 ∉ opened → ¬ V e.2) : Ledger made s opened known m'.store :=
  { h with
    stands := fun e he => hretains.stands _ (h.stands e he)
    mirrors := fun e he hopened => by
      have hsame := hretains.same _ (h.stands e he) (hV e he hopened)
      rw [hsame.sameAt.inside]
      exact h.mirrors e he hopened }

/-- An object of the right kind that was just made is recorded as a copy; it is open. -/
theorem opens (h : Ledger made s opened known s') (hitem : s.Item made v) (hatom : v.isAtom = false)
    (hshape : w.shape = v.shape) (hstands : s'.Stands w) (hnew : ¬ s.Stands w) (hunknown : ∀ e ∈ known, e.1 ≠ v)
    (hunused : ∀ e ∈ known, e.2 ≠ w) : Ledger made s (v :: opened) ((v, w) :: known) s' where
  items := List.forall_mem_cons.mpr ⟨⟨hitem, hatom⟩, h.items⟩
  shape := List.forall_mem_cons.mpr ⟨hshape, h.shape⟩
  stands := List.forall_mem_cons.mpr ⟨hstands, h.stands⟩
  new := List.forall_mem_cons.mpr ⟨hnew, h.new⟩
  oneToOne e he e' he' := by
    obtain rfl | he := List.mem_cons.mp he <;> obtain rfl | he' := List.mem_cons.mp he'
    · exact iff_of_true rfl rfl
    · exact iff_of_false (Ne.symm (hunknown e' he')) (Ne.symm (hunused e' he'))
    · exact iff_of_false (hunknown e he) (hunused e he)
    · exact h.oneToOne e he e' he'
  mirrors e he hopened := by
    obtain ⟨hne, hopened⟩ := not_or.mp (mt List.mem_cons.mpr hopened)
    obtain rfl | he := List.mem_cons.mp he
    · exact absurd rfl hne
    · exact forall₂_mono (h.mirrors e he hopened) (List.subset_cons_self ..)

/-- A copy that holds copies of all that the object holds is complete. -/
theorem closes (h : Ledger made s (v :: opened) known s') (hknown : (v, w) ∈ known)
    (hmirrors : List.Forall₂ (Paired made known) (s.inside made v) (s'.inside made w)) :
    Ledger made s opened known s' :=
  { h with
    mirrors := fun e he hopened => by
      by_cases hev : e.1 = v
      · rw [(h.oneToOne e he _ hknown).mp hev, hev]
        exact hmirrors
      · exact h.mirrors e he fun hmem => (List.mem_cons.mp hmem).elim hev hopened }

end Ledger

/-! ### Work on copies -/

section
variable {α β : Type} {V W : Value → Prop} {P : α → Known → Machine → Prop} {Q : β → Known → Machine → Prop} {σ : Service}
  {m m₁ : Machine}

/-- Whether work on copies retains what is there apart from some objects, and leads to something if it ends. -/
structure Attains (V : Value → Prop) (P : α → Known → Machine → Prop) (c : CopyM α) (σ : Service) (known : Known)
    (m : Machine) : Prop where
  retains : m.Retains V (c known σ m).2
  leads : ∀ a known' m', c known σ m = (.done (a, known'), m') → P a known' m'

namespace Attains
variable {c : CopyM α}

theorem pure {a : α} (h : P a known m) : Attains V P (pure a) σ known m where
  retains := .refl V m
  leads _ _ _ h' := by
    cases h'
    exact h

theorem bind {f : α → CopyM β} (hc : Attains V P c σ known m)
    (hf : ∀ a known' m', P a known' m' → m.Retains V m' → Attains V Q (f a) σ known' m') :
    Attains V Q (c >>= f) σ known m := by
  obtain ⟨hretains, hleads⟩ := hc
  have hrun : (c >>= f) known σ m = (c known >>= fun r => f r.1 r.2 : Work (β × Known)) σ m := rfl
  rw [Work.bind_eq] at hrun
  rcases hend : c known σ m with ⟨⟨a, known'⟩ | e | _, m'⟩ <;> rw [hend] at hrun hretains
  · obtain ⟨hretains', hleads'⟩ := hf a known' m' (hleads a known' m' hend) hretains
    exact ⟨by rw [hrun]; exact hretains.trans hretains', fun b k m'' h => hleads' b k m'' (hrun.symm.trans h)⟩
  · exact ⟨by rw [hrun]; exact hretains, fun b k m'' h => by rw [hrun] at h; cases h⟩
  · exact ⟨by rw [hrun]; exact hretains, fun b k m'' h => by rw [hrun] at h; cases h⟩

theorem mono (h : Attains V P c σ known m) (hV : ∀ v, m.store.Stands v → V v → W v) : Attains W P c σ known m :=
  ⟨h.retains.mono hV, h.leads⟩

theorem retained (h : Attains V P c σ known m) : Attains V (fun a known' m' => P a known' m' ∧ m.Retains V m') c σ known m where
  retains := h.retains
  leads a known' m' hend := ⟨h.leads a known' m' hend, by
    have hretains := h.retains
    rwa [hend] at hretains⟩

theorem of_eq {c' : CopyM α} (h : Attains V P c σ known m) (heq : c' known σ m = c known σ m) :
    Attains V P c' σ known m :=
  ⟨heq ▸ h.retains, heq ▸ h.leads⟩

/-- Work that always gives one result leads to that. -/
theorem of_gives {w : Work α} {a : α} {m' : Machine} (h : w.Gives m a m') (hretains : m.Retains V m') (hP : P a known m') :
    Attains V P (liftM w : CopyM α) σ known m := by
  have hrun : (liftM w : CopyM α) known σ m = (.done (a, known), m') := by
    show (w >>= fun a => Pure.pure (a, known) : Work (α × Known)) σ m = _
    rw [h.bind_eq]
    rfl
  refine ⟨by rw [hrun]; exact hretains, fun b k m'' h => ?_⟩
  cases hrun.symm.trans h
  exact hP

/-- What is made and recorded is there for what follows. -/
theorem place {f : Store → Value × Store} {g : Value → CopyM β} (hmade : m.Retains V { m with store := (f m.store).2 })
    (hg : Attains V Q (g (f m.store).1) σ ((v, (f m.store).1) :: known) { m with store := (f m.store).2 }) :
    Attains V Q (place v f >>= g) σ known m :=
  ⟨hmade.trans hg.retains, hg.leads⟩

theorem fail (failure : Failure) : Attains V P (liftM (Work.fail failure : Work α) : CopyM α) σ known m where
  retains := Work.retains_fail failure m σ
  leads _ _ _ h := by cases h

end Attains
end

/-! ### Copies of documents -/

variable {m m₁ : Machine} {σ : Service} {f : Value → CopyM Value}

/-- What a copy is that has been made: it is recorded with the copies that were known before. -/
structure Records (made : Value → List Value) (s : Store) (opened : List Value) (known : Known) (v w : Value)
    (known' : Known) (s' : Store) : Prop where
  known : known ⊆ known'
  ledger : Ledger made s opened known' s'
  paired : Paired made known' v w

/-- Whether a value in a machine is copied by some work, at whatever later point. -/
def Copies (made : Value → List Value) (m : Machine) (σ : Service) (f : Value → CopyM Value) (v : Value) : Prop :=
  ∀ opened known m₁, m.Retains (fun _ => False) m₁ → Ledger made m.store opened known m₁.store →
    Attains (fun _ => False) (fun w known' m' => Records made m.store opened known v w known' m'.store) (f v) σ known m₁

/-- What has changed of what is there is the same as ever for a machine in which it was not there. -/
theorem retains_beyond {V : Value → Prop} {m' : Machine} (h : m.Retains (fun _ => False) m₁) (h' : m₁.Retains V m')
    (hV : ∀ v, V v → ¬ m.store.Stands v) : m.Retains (fun _ => False) m' :=
  ((h.mono fun _ _ => False.elim).trans h').mono fun v hv hv' => hV v hv' hv

section
variable {i j : Nat} (hretains : m.Retains (fun _ => False) m₁)
include hretains

/-- The items of a list are copied one after the other into the copy of the list, which is open. -/
theorem attains_items (hledger : Ledger made m.store opened known m₁.store) (hv : v ∈ opened) (hknown : (v, .list j) ∈ known)
    {copied items : List Value} (hitems : ∀ w ∈ items, Copies made m σ f w)
    (hcopied : List.Forall₂ (Paired made known) copied (m₁.store.list j)) :
    Attains (· = .list j) (fun _ known' m' => known ⊆ known' ∧ Ledger made m.store opened known' m'.store ∧
        List.Forall₂ (Paired made known') (copied ++ items) (m'.store.list j))
      (all (fun w => do
        let w ← f w
        Work.append (.list j) w
        return w) items) σ known m₁ := by
  -- By induction on the items that are left: the copy of the list holds copies of those before, and it alone has changed.
  induction items generalizing copied known m₁ with
  | nil =>
    rw [List.append_nil]
    exact .pure ⟨List.Subset.refl _, hledger, hcopied⟩
  | cons x items ih =>
    obtain ⟨hx, hitems⟩ := List.forall_mem_cons.mp hitems
    have hfirst : Attains (· = .list j) (fun _ known' m' => known ⊆ known' ∧ Ledger made m.store opened known' m'.store ∧
        List.Forall₂ (Paired made known') (copied ++ [x]) (m'.store.list j)) (do
          let w ← f x
          Work.append (.list j) w
          return w : CopyM Value) σ known m₁ := by
      refine ((hx opened known m₁ hretains hledger).retained.mono fun _ _ => False.elim).bind fun w known₂ m₂ h₂ _ => ?_
      obtain ⟨⟨hsub, hledger₂, hpaired⟩, hretains₂⟩ := h₂
      have hlist : m₂.store.list j = m₁.store.list j := hretains₂.same (.list j) (hledger.stands _ hknown) id
      have happend : m₂.Retains (· = .list j) { m₂ with store := m₂.store.pushed j w } := .updateList m₂ j _ rfl
      have hledger₃ := hledger₂.of_retains happend fun e he hopened hej =>
        hopened ((hledger₂.oneToOne e he _ (hsub hknown)).mpr hej ▸ hv)
      have hgives : (Work.append (.list j) w).Gives m₂ () { m₂ with store := m₂.store.pushed j w } := fun _ => rfl
      refine (Attains.of_gives (P := fun _ k m' => k = known₂ ∧ m' = _) hgives happend ⟨rfl, rfl⟩).bind fun _ k m₃ h₃ _ => ?_
      obtain ⟨rfl, rfl⟩ := h₃
      refine .pure ⟨hsub, hledger₃, ?_⟩
      rw [Store.list_pushed_self (hledger₂.stands _ (hsub hknown)), hlist]
      exact List.rel_append (forall₂_mono hcopied hsub) (.cons hpaired .nil)
    refine hfirst.bind fun _ known₂ m₂ h₂ hretains₂ => ?_
    obtain ⟨hsub, hledger₂, hcopied₂⟩ := h₂
    have hnew : ∀ v, v = .list j → ¬ m.store.Stands v := fun v hv => hv ▸ hledger.new _ hknown
    have hrest := ih (retains_beyond hretains hretains₂ hnew) hledger₂ (hsub hknown) hitems hcopied₂
    refine hrest.bind fun _ known₃ m₃ h₃ _ => .pure ?_
    obtain ⟨hsub₃, hledger₃, hcopied₃⟩ := h₃
    rw [List.append_assoc] at hcopied₃
    exact ⟨List.Subset.trans hsub hsub₃, hledger₃, hcopied₃⟩

/-- The entries of a dictionary are copied one after the other into the copy of the dictionary, which is open. -/
theorem attains_entries (hledger : Ledger made m.store opened known m₁.store) (hv : v ∈ opened)
    (hknown : (v, .dict j) ∈ known) {copied rest : Entries} (hitems : ∀ w ∈ rest.parts, Copies made m σ f w)
    (htexts : ∀ k ∈ rest.keys, ∃ name, k = .str name) (hdistinct : (copied ++ rest).keys.Nodup)
    (hkeys : (m₁.store.dict j).keys = copied.keys)
    (hcopied : List.Forall₂ (Paired made known) copied.parts (m₁.store.dict j).parts) :
    Attains (· = .dict j) (fun _ known' m' => known ⊆ known' ∧ Ledger made m.store opened known' m'.store ∧
        List.Forall₂ (Paired made known') (copied ++ rest).parts (m'.store.dict j).parts)
      (entries f (.dict j) rest) σ known m₁ := by
  induction rest generalizing copied known m₁ with
  | nil =>
    rw [List.append_nil]
    exact .pure ⟨List.Subset.refl _, hledger, hcopied⟩
  | cons e rest ih =>
    obtain ⟨k, x⟩ := e
    have hkeysCons : Entries.keys ((k, x) :: rest) = k :: Entries.keys rest := rfl
    have hpartsCons : Entries.parts ((k, x) :: rest) = k :: x :: Entries.parts rest := rfl
    rw [hkeysCons, List.forall_mem_cons] at htexts
    rw [hpartsCons, List.forall_mem_cons, List.forall_mem_cons] at hitems
    obtain ⟨⟨name, rfl⟩, htexts⟩ := htexts
    obtain ⟨hk, hx, hitems⟩ := hitems
    have hnew : ∀ v, v = .dict j → ¬ m.store.Stands v := fun v hv => hv ▸ hledger.new _ hknown
    refine ((hx opened known m₁ hretains hledger).retained.mono fun _ _ => False.elim).bind fun w known₂ m₂ h₂ _ => ?_
    obtain ⟨⟨hsub, hledger₂, hpaired⟩, hretains₂⟩ := h₂
    have hbefore₂ := retains_beyond hretains hretains₂ fun _ => False.elim
    refine ((hk opened known₂ m₂ hbefore₂ hledger₂).retained.mono fun _ _ => False.elim).bind fun k known₃ m₃ h₃ _ => ?_
    obtain ⟨⟨hsub₃, hledger₃, hpairedKey⟩, hretains₃⟩ := h₃
    obtain rfl : k = .str name := hledger₃.eq_of_isAtom rfl hpairedKey
    have hsub' : known ⊆ known₃ := List.Subset.trans hsub hsub₃
    have hdict : m₃.store.dict j = m₁.store.dict j :=
      (hretains₂.trans hretains₃).same (.dict j) (hledger.stands _ hknown) id
    have hset := Work.gives_setEntry j name w m₃
    have hretains₄ : m₃.Retains (· = .dict j) { m₃ with store := m₃.store.updateDict j fun t => t.set (.str name) w } :=
      .updateDict m₃ j _ rfl
    refine (Attains.of_gives (P := fun _ k m' => k = known₃ ∧ m' = _) hset hretains₄ ⟨rfl, rfl⟩).bind fun _ k m₄ h₄ _ => ?_
    obtain ⟨rfl, rfl⟩ := h₄
    have hledger₄ := hledger₃.of_retains hretains₄ fun e he hopened hej =>
      hopened ((hledger₃.oneToOne e he _ (hsub' hknown)).mpr hej ▸ hv)
    have hassoc : copied ++ (.str name, x) :: rest = (copied ++ [(.str name, x)]) ++ rest := by rw [List.append_assoc]; rfl
    -- The text is no key yet, so that its entry comes last.
    have hfree : .str name ∉ (m₁.store.dict j).keys := by
      rw [hkeys]
      intro hmem
      rw [Entries.keys_append] at hdistinct
      exact (List.nodup_append.mp hdistinct).2.2 _ hmem _ (List.mem_cons_self ..) rfl
    have hdict₄ : (m₃.store.updateDict j fun t => t.set (.str name) w).dict j = m₁.store.dict j ++ [(.str name, w)] := by
      rw [Store.dict_updateDict, if_pos ⟨rfl, hledger₃.stands _ (hsub' hknown)⟩, hdict, Entries.set_of_notMem hfree]
    rw [hassoc] at hdistinct ⊢
    have hrest := ih (retains_beyond hbefore₂ ((hretains₃.mono fun _ _ => False.elim).trans hretains₄) hnew) hledger₄
      (hsub' hknown) hitems htexts hdistinct (by rw [hdict₄, Entries.keys_append, Entries.keys_append, hkeys]; rfl) ?_
    · exact ⟨hrest.retains, fun a k m' hend => (hrest.leads a k m' hend).imp_left (List.Subset.trans hsub')⟩
    · rw [hdict₄, Entries.parts_append, Entries.parts_append]
      exact List.rel_append (forall₂_mono hcopied hsub') (.cons hpairedKey (.cons (hpaired.mono hsub₃) .nil))

end

/-! ### Copies of each kind of value -/

section
variable {α β : Type} {m' : Machine} {fuel i : Nat}

theorem lift_bind {w : Work α} {a : α} (h : w.Gives m a m') (f : α → CopyM β) :
    ((liftM w : CopyM α) >>= f) known σ m = f a known σ m' := by
  show ((w >>= fun a => pure (a, known)) >>= fun r => f r.1 r.2 : Work (β × Known)) σ m = _
  rw [Work.bind_assoc, h.bind_eq]
  rfl

theorem find_bind (v : Value) (f : Option Value → CopyM β) :
    (find? v >>= f) known σ m = f ((known.find? fun e => e.1 = v).map (·.2)) known σ m := rfl

/-- What can stand in a document has no method for its own copies. -/
theorem gives_copier {s : Store} (h : s.Item made v) (m : Machine) : (copier? m.store v).Gives m none m := by
  intro σ
  cases h with
  | list | dict => rfl
  | atom hatom => cases v <;> first | rfl | cases hatom

theorem copy_found {found : Value × Value} (hitem : s.Item made v) (h : known.find? (fun e => e.1 = v) = some found) :
    copy (fuel + 1) v known σ m = (.done (found.2, known), m) := by
  rw [copy, lift_bind (Work.gives_store m), find_bind, lift_bind (gives_copier hitem m), h]
  rfl

theorem copy_atom (hv : v.isAtom = true) (hitem : s.Item made v) (h : known.find? (fun e => e.1 = v) = none) :
    copy (fuel + 1) v known σ m = (.done (v, known), m) := by
  rw [copy, lift_bind (Work.gives_store m), find_bind, lift_bind (gives_copier hitem m), h]
  cases v <;> first | rfl | cases hv

theorem copy_list (hitem : s.Item made (.list i)) (h : known.find? (fun e => e.1 = .list i) = none) :
    copy (fuel + 2) (.list i) known σ m = (do
      let new ← place (.list i) fun s => s.addList []
      let _ ← all (fun w => do
        let w ← copy fuel w
        Work.append new w
        return w) (m.store.list i)
      return new : CopyM Value) known σ m := by
  rw [copy, lift_bind (Work.gives_store m), find_bind, lift_bind (gives_copier hitem m), h]
  rfl

theorem copy_dict (hitem : s.Item made (.dict i)) (h : known.find? (fun e => e.1 = .dict i) = none) :
    copy (fuel + 2) (.dict i) known σ m = (do
      let new ← place (.dict i) fun s => s.addDict []
      entries (copy fuel) new (m.store.dict i)
      return new : CopyM Value) known σ m := by
  rw [copy, lift_bind (Work.gives_store m), find_bind, lift_bind (gives_copier hitem m), h]
  rfl

/-- With no fuel left for what is in it, nothing is copied but atoms. -/
theorem copy_one (hv : v.isAtom = false) (hitem : s.Item made v) (h : known.find? (fun e => e.1 = v) = none) :
    copy 1 v known σ m = (liftM (Work.fail .tooDeep : Work Value) : CopyM Value) known σ m := by
  rw [copy, lift_bind (Work.gives_store m), find_bind, lift_bind (gives_copier hitem m), h]
  cases hitem with
  | list | dict => rfl
  | atom hatom => cases hv.symm.trans hatom

end

section
variable {fuel i : Nat} (hretains : m.Retains (fun _ => False) m₁) (hledger : Ledger made m.store opened known m₁.store)
  (hfind : known.find? (fun e => e.1 = v) = none)
include hretains hledger hfind

/-- What has just been made is recorded as the copy of something that had none. -/
theorem ledger_of_made {m₂ : Machine} (hmade : m₁.Retains (fun _ => False) m₂) (hitem : m.store.Item made v)
    (hatom : v.isAtom = false) (hshape : w.shape = v.shape) (hthere : m₂.store.Stands w) (hnew : ¬ m₁.store.Stands w) :
    Ledger made m.store (v :: opened) ((v, w) :: known) m₂.store := by
  refine (hledger.of_retains hmade fun _ _ _ => id).opens hitem hatom hshape hthere
    (fun hold => hnew (hretains.stands _ hold)) (fun e he hev => ?_) fun e he hew => hnew (hew ▸ hledger.stands e he)
  exact absurd (decide_eq_true hev) (List.find?_eq_none.mp hfind e he)

omit hretains hledger hfind in
/-- A copy that has been made and recorded is complete when it has been filled. -/
theorem attains_filled {α : Type} {g : Value → CopyM α} {made' : Store → Value × Store}
    (hmade : m₁.Retains (fun _ => False) { m₁ with store := (made' m₁.store).2 })
    (hnew : ¬ m₁.store.Stands (made' m₁.store).1)
    (hfilled : Attains (· = (made' m₁.store).1) (fun _ known' m' => (v, (made' m₁.store).1) :: known ⊆ known' ∧
        Ledger made m.store (v :: opened) known' m'.store ∧
        List.Forall₂ (Paired made known') (m.store.inside made v) (m'.store.inside made (made' m₁.store).1))
      (g (made' m₁.store).1) σ ((v, (made' m₁.store).1) :: known) { m₁ with store := (made' m₁.store).2 }) :
    Attains (fun _ => False) (fun w known' m' => Records made m.store opened known v w known' m'.store)
      (place v made' >>= fun new => g new >>= fun _ => pure new) σ known m₁ := by
  refine Attains.mono (.place (hmade.mono fun _ _ => False.elim) (hfilled.bind fun _ known' m' h' _ => .pure ?_))
    fun w hw he => hnew (he ▸ hw)
  obtain ⟨hsub, hledger', hmirrors⟩ := h'
  have hknown := hsub (List.mem_cons_self ..)
  exact ⟨List.Subset.trans (List.subset_cons_self ..) hsub, hledger'.closes hknown hmirrors, .inl hknown⟩

theorem attains_copy_list (hv : v = .list i) (hitem : m.store.Item made v)
    (hitems : ∀ w ∈ m.store.inside made v, Copies made m σ (copy fuel) w) :
    Attains (fun _ => False) (fun w known' m' => Records made m.store opened known v w known' m'.store)
      (copy (fuel + 2) v) σ known m₁ := by
  subst hv
  have hstands : m.store.Stands (.list i) := by
    cases hitem with
    | list hstands => exact hstands
    | atom hatom => cases hatom
  let j : Nat := m₁.store.lists.size
  let m₂ : Machine := { m₁ with store := (m₁.store.addList []).2 }
  have hmade {V : Value → Prop} : m₁.Retains V m₂ := .of_made (.addList _ _) rfl rfl
  have hnew : ¬ m₁.store.Stands (.list j) := Nat.lt_irrefl _
  have hledger₂ := ledger_of_made hretains hledger hfind hmade hitem rfl (w := .list j) rfl
    (Nat.lt_of_lt_of_eq (Nat.lt_succ_self _) (Array.size_push _).symm) hnew
  have hempty : m₂.store.list j = [] := by simp [m₂, j, Store.list, Store.addList]
  have hlist : m₁.store.list i = m.store.list i := hretains.same (.list i) hstands id
  have hcopied := attains_items (hretains.trans hmade) hledger₂ (List.mem_cons_self ..) (List.mem_cons_self ..) hitems
    (hempty.symm ▸ List.Forall₂.nil : List.Forall₂ _ [] (m₂.store.list j))
  refine .of_eq ?_ (copy_list hitem hfind)
  rw [hlist]
  exact attains_filled hmade hnew hcopied

theorem attains_copy_dict (hv : v = .dict i) (hitem : m.store.Item made v)
    (hitems : ∀ w ∈ m.store.inside made v, Copies made m σ (copy fuel) w) :
    Attains (fun _ => False) (fun w known' m' => Records made m.store opened known v w known' m'.store)
      (copy (fuel + 2) v) σ known m₁ := by
  subst hv
  obtain ⟨hstands, htexts, hdistinct⟩ : m.store.Stands (.dict i) ∧
      (∀ k ∈ (m.store.dict i).keys, ∃ name, k = .str name) ∧ (m.store.dict i).keys.Nodup := by
    cases hitem with
    | dict hstands htexts hdistinct => exact ⟨hstands, htexts, hdistinct⟩
    | atom hatom => cases hatom
  let j : Nat := m₁.store.dicts.size
  let m₂ : Machine := { m₁ with store := (m₁.store.addDict []).2 }
  have hmade {V : Value → Prop} : m₁.Retains V m₂ := .of_made (.addDict _ _) rfl rfl
  have hnew : ¬ m₁.store.Stands (.dict j) := Nat.lt_irrefl _
  have hledger₂ := ledger_of_made hretains hledger hfind hmade hitem rfl (w := .dict j) rfl
    (Nat.lt_of_lt_of_eq (Nat.lt_succ_self _) (Array.size_push _).symm) hnew
  have hempty : m₂.store.dict j = [] := by simp [m₂, j, Store.dict, Store.addDict]
  have hdict : m₁.store.dict i = m.store.dict i := hretains.same (.dict i) hstands id
  have hcopied := attains_entries (hretains.trans hmade) hledger₂ (List.mem_cons_self ..) (List.mem_cons_self ..) hitems
    htexts (show ([] ++ m.store.dict i : Entries).keys.Nodup from hdistinct) (congrArg Entries.keys hempty)
    (hempty.symm ▸ List.Forall₂.nil : List.Forall₂ _ [] (m₂.store.dict j).parts)
  refine .of_eq ?_ (copy_dict hitem hfind)
  rw [hdict]
  exact attains_filled hmade hnew hcopied

end

/-- Every value of a document is copied. -/
theorem copies_of_isDocument (fuel : Nat) (h : m.store.IsDocument made v) : Copies made m σ (copy fuel) v := by
  -- Each list and each dictionary takes two of the fuel. One that is within itself has been recorded before what is in it is
  -- copied, so that it is found.
  induction fuel using Nat.strongRecOn generalizing v with
  | ind fuel ih =>
    intro opened known m₁ hretains hledger
    have hitem := h v .refl
    rcases fuel with _ | fuel
    · exact .fail _
    cases hfind : known.find? fun e => e.1 = v with
    | some found =>
      refine .of_eq (.pure ?_) (copy_found hitem hfind)
      exact ⟨List.Subset.refl _, hledger, .inl (mem_of_find? hfind)⟩
    | none =>
      cases hatom : v.isAtom with
      | true =>
        have hempty : made v = [] := by
          cases hitem with
          | atom _ hempty => exact hempty
          | _ => cases hatom
        refine .of_eq (.pure ?_) (copy_atom hatom hitem hfind)
        exact ⟨List.Subset.refl _, hledger, .inr ⟨rfl, hatom, hempty⟩⟩
      | false =>
        rcases fuel with _ | fuel
        · exact .of_eq (.fail _) (copy_one hatom hitem hfind)
        have hinside (w : Value) (hw : w ∈ m.store.inside made v) : Copies made m σ (copy fuel) w :=
          ih fuel (by omega) (h.of_mem hw)
        cases hitem with
        | list hstands => exact attains_copy_list hretains hledger hfind rfl (.list hstands) hinside
        | dict hstands htexts hdistinct =>
          exact attains_copy_dict hretains hledger hfind rfl (.dict hstands htexts hdistinct) hinside
        | atom h _ => cases hatom.symm.trans h

/-- What is in the second of two lists that correspond has a counterpart. -/
theorem exists_of_forall₂ {R : Value → Value → Prop} {vs ws : List Value} (h : List.Forall₂ R vs ws) {b : Value}
    (hb : b ∈ ws) : ∃ a, R a b := by
  induction h with
  | nil => cases hb
  | cons hab _ ih =>
    obtain rfl | hb := List.mem_cons.mp hb
    · exact ⟨_, hab⟩
    · exact ih hb

theorem inside_of_isAtom (h : v.isAtom = true) (made : Value → List Value) (s : Store) : s.inside made v = made v := by
  cases v <;> first | rfl | cases h

theorem instance?_of_isAtom (h : v.isAtom = true) (s : Store) : s.instance? v = none := by
  cases v <;> first | rfl | cases h

namespace Ledger

/-- When nothing is open any more, what is recorded has the same structure. -/
theorem alike (h : Ledger made s [] known s') (hpaired : Paired made known v w) : s.Alike made v s' w := by
  -- What is paired corresponds: since nothing is open, copies hold copies of what the objects hold.
  refine ⟨Paired made known, hpaired, fun a b hab => ?_, fun a b a' b' hab hab' hmutable => ?_⟩
  · obtain hmem | ⟨rfl, hatom, hempty⟩ := hab
    · have hmirrors := h.mirrors _ hmem List.not_mem_nil
      refine ⟨h.shape _ hmem, ?_, _, .refl _, hmirrors, fun _ => rfl⟩
      obtain ⟨i, j, he⟩ | ⟨i, j, he⟩ := h.kinds hmem <;> cases he <;> rfl
    · refine ⟨rfl, ?_, _, .refl _, ?_, fun _ => rfl⟩
      · rw [instance?_of_isAtom hatom, instance?_of_isAtom hatom]
      · rw [inside_of_isAtom hatom, inside_of_isAtom hatom, hempty]
        exact .nil
  · obtain hmem | ⟨rfl, hatom, -⟩ := hab
    · obtain hmem' | ⟨rfl, hatom, -⟩ := hab'
      · exact h.oneToOne _ hmem _ hmem'
      · have hkeeps := Value.isMutable_of_isAtom hatom
        refine iff_of_false ?_ ?_ <;> rintro rfl
        · cases hkeeps.symm.trans (h.isMutable hmem).1
        · cases hkeeps.symm.trans (h.isMutable hmem).2
    · cases hmutable.symm.trans (Value.isMutable_of_isAtom hatom)

/-- What can change in a copy is new. -/
theorem fresh (h : Ledger made s [] known s') (hpaired : Paired made known v w) {u : Value} (hu : s'.Within made w u)
    (hmutable : u.isMutable = true) : s'.Stands u ∧ ¬ s.Stands u := by
  -- By induction on how deep in the copy it is: each value there is paired with one that was copied.
  have hcopied : ∃ a, Paired made known a u := by
    clear hmutable
    induction hu with
    | refl => exact ⟨v, hpaired⟩
    | tail _ hin ih =>
      obtain ⟨a, hmem | ⟨rfl, hatom, hempty⟩⟩ := ih
      · exact exists_of_forall₂ (h.mirrors _ hmem List.not_mem_nil) hin
      · rw [inside_of_isAtom hatom, hempty] at hin
        cases hin
  obtain ⟨a, hmem | ⟨rfl, hatom, -⟩⟩ := hcopied
  · exact ⟨h.stands _ hmem, h.new _ hmem⟩
  · cases hmutable.symm.trans (Value.isMutable_of_isAtom hatom)

end Ledger
end Copying

namespace Work
open Copying
variable {made : Value → List Value} {m : Machine} {d : Value}

/-- A copy of a document is as is taken for granted of deep copies. -/
theorem independent_of_isDocument (h : m.store.IsDocument made d) (σ : Service) :
    Independent made m d (deepCopy d σ m).1 (deepCopy d σ m).2 := by
  obtain ⟨hretains, hleads⟩ :=
    copies_of_isDocument (σ := σ) copyDepth h [] [] m (.refl _ m) (.nil made m.store m.store [])
  have hrun : deepCopy d σ m = ((copy copyDepth d []) >>= fun r => pure r.1 : Work Value) σ m := rfl
  rw [hrun, bind_eq]
  rcases hend : copy copyDepth d [] σ m with ⟨⟨w, known⟩ | e | _, m'⟩ <;> rw [hend] at hretains
  · obtain ⟨-, hledger, hpaired⟩ := hleads w known m' hend
    refine ⟨hretains, fun v hv => ?_, fun v hv u hu hmutable => ?_⟩ <;> cases hv
    · exact hledger.alike hpaired
    · exact hledger.fresh hpaired hu hmutable
  · exact ⟨hretains, nofun, nofun⟩
  · exact ⟨hretains, nofun, nofun⟩

/-- Nothing needs to be taken for granted of families whose data are a document. -/
theorem detaches_of_isDocument {F K S : Set Nat} {c : Nat} (hm : Isolated made F K S m) (hc : c ∈ F)
    (h : ∀ d, m.store.typeAttr? c "data" = some d → m.store.IsDocument made d) (σ : Service) : Detaches made m c σ := by
  intro d hd _
  obtain ⟨w, a, f, v₁, v₂, m₁, m₂, hgives, hprepares, -⟩ := gives_equip hm hc
  have hequipped : equipped m c = m₂ := congrArg Prod.snd (hgives Service.idle)
  have hcommon {u : Value} (hu : m.store.Within made d u) (hmutable : u.isMutable = true) : m.store.Stands u :=
    hm.ground u (.data (hm.families hc) (hm.regular c hc).family hd hu hmutable)
  rw [hequipped]
  refine independent_of_isDocument ((h d hd).of_same (fun u hu hmutable => ?_) fun u hu hmutable => ?_) σ
  · exact hprepares.retains.stands u (hcommon hu hmutable)
  · exact hprepares.sameAs (hcommon hu hmutable)

end Work
end Treeworks
