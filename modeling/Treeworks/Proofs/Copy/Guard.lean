import Treeworks.Proofs.Copy.Sides

/-! Work on one file, while another is left alone. Everybody is taken to leave the other file as it is with all its parts,
and to let the file that is worked on keep its list of diagnostics and its dictionary of bags, none of whose bags is part
of the other file. That makes a discipline, and two disciplines make one. -/
namespace Treeworks

namespace Aside
variable {m m' : Machine} {w : Value}

theorem there (h : Aside m m') (hw : m.store.There w) : m'.store.There w := by
  cases w with
  | dict i => exact Nat.lt_of_lt_of_le hw h.dicts.size
  | list i => exact Nat.lt_of_lt_of_le hw h.lists.size
  | set i => exact Nat.lt_of_lt_of_le hw h.sets.size
  | file i => exact Nat.lt_of_lt_of_le hw h.files.size
  | worker i => exact Nat.lt_of_lt_of_eq hw (congrArg Array.size h.workers).symm
  | processor i => exact Nat.lt_of_lt_of_eq hw (congrArg Array.size h.processors).symm
  | _ => trivial

/-- What was there is the same after something was done aside. -/
theorem sameAt (h : Aside m m') (hw : m.store.There w) : m.store.SameAt m'.store w := by
  cases w with
  | dict i => exact h.dicts.same i hw []
  | list i => exact congrArg Array.toList (h.lists.same i hw #[])
  | set i => exact h.sets.same i hw .empty
  | file i => exact h.files.same i hw default
  | worker i => exact congrArg (fun t => some (t.getD i default)) h.workers
  | processor i => exact congrArg (fun t => some (t.getD i default)) h.processors
  | _ => rfl

end Aside

namespace Store
variable {made : Value → List Value} {s s' : Store} {f : Nat} {w : Value}

/-- Whether a value is no part of a file that could change. -/
def Off (made : Value → List Value) (s : Store) (f : Nat) (w : Value) : Prop := w.isMutable = true → ¬ s.Side made f w

theorem Off.congr (h : s.Off made f w) (hsame : s.SameFile made s' f) : s'.Off made f w :=
  fun hw hside => h hw (hsame.side.mp hside)

end Store

/-- Whether a file is there with all its parts, and another is there whose diagnostics and bags are not among them. -/
structure Guarded (made : Value → List Value) (f x : Nat) (m : Machine) : Prop where
  plain : m.Plain
  there : ∀ w, m.store.Side made f w → m.store.There w
  file_lt : x < m.store.files.size
  file : ¬ m.store.Side made f (.file x)
  messages : ∃ l, (m.store.file x).messages = .list l ∧ ¬ m.store.Side made f (.list l)
  bags : ∃ d, (m.store.file x).bags = .dict d ∧ d < m.store.dicts.size ∧ ¬ m.store.Side made f (.dict d) ∧
    ∀ e ∈ m.store.dict d, m.store.Off made f e.2

/-- What everybody keeps to: the one file stays the same with all its parts, and the other keeps its list of diagnostics
and its dictionary of bags. -/
structure Respects (made : Value → List Value) (f x : Nat) (m m' : Machine) : Prop where
  guarded : Guarded made f x m'
  there : ∀ w, m.store.There w → m'.store.There w
  same : m.store.SameFile made m'.store f
  messages : (m'.store.file x).messages = (m.store.file x).messages
  bags : (m'.store.file x).bags = (m.store.file x).bags

namespace Guarded
variable {made : Value → List Value} {f x : Nat} {m m' : Machine}

/-- What leaves one file the same and keeps the other's list and dictionary is kept to, if what comes among the bags is no
part of the first file. -/
theorem respects (h : Guarded made f x m) (hplain : m'.Plain) (hthere : ∀ w, m.store.There w → m'.store.There w)
    (hsame : m.store.SameFile made m'.store f) (hmessages : (m'.store.file x).messages = (m.store.file x).messages)
    (hbags : (m'.store.file x).bags = (m.store.file x).bags)
    (hroot : ∀ d, (m.store.file x).bags = .dict d → ∀ e ∈ m'.store.dict d, m.store.Off made f e.2) :
    Respects made f x m m' := by
  obtain ⟨l, hl, hlist⟩ := h.messages
  obtain ⟨d, hd, hlt, hoff, -⟩ := h.bags
  have hdict : m'.store.There (.dict d) := hthere (.dict d) hlt
  have hfile : m'.store.There (.file x) := hthere (.file x) h.file_lt
  refine ⟨⟨hplain, fun w hw => hthere w (h.there w (hsame.side.mp hw)), hfile, fun hw => h.file (hsame.side.mp hw),
    ⟨l, hmessages.trans hl, fun hw => hlist (hsame.side.mp hw)⟩,
    ⟨d, hbags.trans hd, hdict, fun hw => hoff (hsame.side.mp hw), fun e he => ?_⟩⟩, hthere, hsame, hmessages, hbags⟩
  exact (hroot d hd e he).congr hsame

/-- What leaves the other file and its dictionary alone, too, is kept to. -/
theorem respects_of_same (h : Guarded made f x m) (hplain : m'.Plain)
    (hthere : ∀ w, m.store.There w → m'.store.There w) (hsame : m.store.SameFile made m'.store f)
    (hfile : m'.store.file x = m.store.file x)
    (hroot : ∀ d, (m.store.file x).bags = .dict d → m'.store.dict d = m.store.dict d) : Respects made f x m m' := by
  refine h.respects hplain hthere hsame (congrArg _ hfile) (congrArg _ hfile) fun d hd e he => ?_
  obtain ⟨d', hd', -, -, hbags⟩ := h.bags
  obtain rfl : d = d' := Value.dict.inj (hd.symm.trans hd')
  rw [hroot d hd] at he
  exact hbags e he

/-- What is done aside is kept to. -/
theorem of_aside (h : Guarded made f x m) (haside : Aside m m') : Respects made f x m m' := by
  refine h.respects_of_same (h.plain.of_eq haside.cells haside.tokens) (fun w => haside.there)
    (fun w hw => haside.sameAt (h.there w hw)) (haside.files.same x h.file_lt default) fun d hd => ?_
  obtain ⟨d', hd', hlt, -⟩ := h.bags
  obtain rfl : d = d' := Value.dict.inj (hd.symm.trans hd')
  exact haside.dicts.same d hlt []

/-- What changes the lines of control alone is kept to, if contexts stay plain. -/
theorem of_objects (h : Guarded made f x m) (hplain : m'.Plain) (hdicts : m'.store.dicts = m.store.dicts)
    (hlists : m'.store.lists = m.store.lists) (hsets : m'.store.sets = m.store.sets)
    (hfiles : m'.store.files = m.store.files) (hworkers : m'.store.workers = m.store.workers)
    (hprocessors : m'.store.processors = m.store.processors) : Respects made f x m m' := by
  have hsame (w : Value) : m.store.SameAt m'.store w := by
    cases w with
    | dict i => exact congrArg (fun t => t.getD i []) hdicts
    | list i => exact congrArg (fun t => (t.getD i #[]).toList) hlists
    | set i => exact congrArg (fun t => t.getD i .empty) hsets
    | file i => exact congrArg (fun t => t.getD i default) hfiles
    | worker i => exact congrArg (fun t => some (t.getD i default)) hworkers
    | processor i => exact congrArg (fun t => some (t.getD i default)) hprocessors
    | _ => rfl
  have hthere (w : Value) (hw : m.store.There w) : m'.store.There w := by
    cases w <;> simp only [Store.There, hdicts, hlists, hsets, hfiles, hworkers, hprocessors] at hw ⊢ <;> exact hw
  exact h.respects_of_same hplain hthere (fun w _ => hsame w) (hsame (.file x)) fun d _ => hsame (.dict d)

end Guarded

namespace Respects
variable {made : Value → List Value} {f x : Nat} {a b c m : Machine}

theorem refl (h : Guarded made f x m) : Respects made f x m m := ⟨h, fun _ => id, .refl _ f, rfl, rfl⟩

theorem trans (h : Respects made f x a b) (h' : Respects made f x b c) : Respects made f x a c where
  guarded := h'.guarded
  there w hw := h'.there w (h.there w hw)
  same := h.same.trans h'.same
  messages := h'.messages.trans h.messages
  bags := h'.bags.trans h.bags

end Respects

/-- Whether something new, or something else, is neither part of the one file nor what the other keeps. -/
def IsClear (made : Value → List Value) (f x : Nat) (m : Machine) : Value → Prop
  | .dict i => Guarded made f x m ∧ m.store.There (.dict i) ∧ ¬ m.store.Side made f (.dict i) ∧
      (m.store.file x).bags ≠ .dict i
  | .file j => Guarded made f x m ∧ m.store.There (.file j) ∧ ¬ m.store.Side made f (.file j) ∧ j ≠ x
  | _ => False

namespace Discipline

/-- Everybody leaves one file alone while working on another. -/
def guarding (made : Value → List Value) (f x : Nat) : Discipline where
  holds m m' := Guarded made f x m → Respects made f x m m'
  proper := Guarded made f x
  spare := IsClear made f x
  refl _ := .refl
  trans h h' hm := (h hm).trans (h' (h hm).guarded)
  of_proper h hm := h hm hm
  proper_of_holds h hm := (h hm).guarded
  plain h := h.plain.cells _
  aside haside hm := hm.of_aside haside
  spare_dict {m} hm t := by
    have hkept := hm.of_aside (Aside.addDict m t)
    refine ⟨hkept.guarded, by simp [Store.There, Store.addDict], fun hside => ?_, fun hroot => ?_⟩
    · exact Nat.lt_irrefl _ (hm.there (.dict _) (hkept.same.side.mp hside))
    · obtain ⟨d, hd, hlt, -⟩ := hm.bags
      have hsame : (m.store.file x).bags = .dict m.store.dicts.size := hroot
      exact Nat.ne_of_lt hlt (Value.dict.inj (hd.symm.trans hsame))
  spare_file {m} hm c := by
    have hkept := hm.of_aside (Aside.addFile m c)
    refine ⟨hkept.guarded, by simp [Store.There, Store.addFile], fun hside => ?_, Nat.ne_of_gt hm.file_lt⟩
    exact Nat.lt_irrefl _ (hm.there (.file _) (hkept.same.side.mp hside))
  spare_of_holds {m m' v} h hv := by
    cases v with
    | dict i =>
      obtain ⟨hm, hi, hoff, hroot⟩ := hv
      have hkept := h hm
      refine ⟨hkept.guarded, hkept.there _ hi, fun hside => hoff (hkept.same.side.mp hside), ?_⟩
      rw [hkept.bags]
      exact hroot
    | file j =>
      obtain ⟨hm, hj, hoff, hne⟩ := hv
      have hkept := h hm
      exact ⟨hkept.guarded, hkept.there _ hj, fun hside => hoff (hkept.same.side.mp hside), hne⟩
    | _ => exact hv.elim
  write_dict {m i} hi g hm := by
    obtain ⟨-, -, hoff, hroot⟩ := hi
    have hdict (j : Nat) (hj : j ≠ i) : (m.store.updateDict i g).dict j = m.store.dict j := by
      rw [Store.dict_updateDict, if_neg fun hij => hj hij.1.symm]
    refine hm.respects_of_same (hm.plain.of_eq rfl rfl) (fun w hw => ?_) (fun w hw => ?_) rfl fun d hd => ?_
    · cases w <;> first | exact hw | simpa [Store.There, Store.updateDict] using hw
    · cases w with
      | dict j => exact hdict j fun hji => hoff (hji ▸ hw)
      | _ => rfl
    · exact hdict d fun hdi => hroot (hdi ▸ hd)
  write_file {m j} hj g hm := by
    obtain ⟨-, -, hoff, hne⟩ := hj
    have hfile (i : Nat) (hi : i ≠ j) : (m.store.updateFile j g).file i = m.store.file i := by
      simp [Store.file, Store.updateFile, Array.getElem?_modify, Ne.symm hi]
    refine hm.respects_of_same (hm.plain.of_eq rfl rfl) (fun w hw => ?_) (fun w hw => ?_) (hfile x hne.symm) fun _ _ => rfl
    · cases w <;> first | exact hw | simpa [Store.There, Store.updateFile] using hw
    · cases w with
      | file i => exact hfile i fun hij => hoff (hij ▸ hw)
      | _ => rfl
  set_scope hc hm := hm.of_objects (hm.plain.set_scope hc _) rfl rfl rfl rfl rfl rfl
  push_cell _ hm := hm.of_objects hm.plain.push_cell rfl rfl rfl rfl rfl rfl
  push_token _ hm := hm.of_objects hm.plain.push_token rfl rfl rfl rfl rfl rfl
  use_token _ token hm := hm.of_objects (hm.plain.use_token token) rfl rfl rfl rfl rfl rfl

/-- Two disciplines at once, asked of machines that are proper for both. -/
def both (D E : Discipline) : Discipline where
  holds m m' := D.proper m → E.proper m → D.holds m m' ∧ E.holds m m'
  proper m := D.proper m ∧ E.proper m
  spare m v := D.proper m ∧ E.proper m ∧ D.spare m v ∧ E.spare m v
  refl m _ _ := ⟨D.refl m, E.refl m⟩
  trans h h' hd he := by
    obtain ⟨hD, hE⟩ := h hd he
    obtain ⟨hD', hE'⟩ := h' (D.proper_of_holds hD hd) (E.proper_of_holds hE he)
    exact ⟨D.trans hD hD', E.trans hE hE'⟩
  of_proper h hd he := h ⟨hd, he⟩ hd he
  proper_of_holds h hm := by
    obtain ⟨hD, hE⟩ := h hm.1 hm.2
    exact ⟨D.proper_of_holds hD hm.1, E.proper_of_holds hE hm.2⟩
  plain hm := D.plain hm.1
  aside haside _ _ := ⟨D.aside haside, E.aside haside⟩
  spare_dict {m} hm t :=
    ⟨D.proper_of_holds (D.aside (.addDict m t)) hm.1, E.proper_of_holds (E.aside (.addDict m t)) hm.2,
      D.spare_dict hm.1 t, E.spare_dict hm.2 t⟩
  spare_file {m} hm c :=
    ⟨D.proper_of_holds (D.aside (.addFile m c)) hm.1, E.proper_of_holds (E.aside (.addFile m c)) hm.2,
      D.spare_file hm.1 c, E.spare_file hm.2 c⟩
  spare_of_holds h hv := by
    obtain ⟨hd, he, hvd, hve⟩ := hv
    obtain ⟨hD, hE⟩ := h hd he
    exact ⟨D.proper_of_holds hD hd, E.proper_of_holds hE he, D.spare_of_holds hD hvd, E.spare_of_holds hE hve⟩
  write_dict hv g _ _ := ⟨D.write_dict hv.2.2.1 g, E.write_dict hv.2.2.2 g⟩
  write_file hv g _ _ := ⟨D.write_file hv.2.2.1 g, E.write_file hv.2.2.2 g⟩
  set_scope hc _ _ := ⟨D.set_scope hc, E.set_scope hc⟩
  push_cell m _ _ := ⟨D.push_cell m, E.push_cell m⟩
  push_token m _ _ := ⟨D.push_token m, E.push_token m⟩
  use_token m token _ _ := ⟨D.use_token m token, E.use_token m token⟩

end Discipline
end Treeworks
