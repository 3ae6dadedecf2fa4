import Treeworks.Proofs.Slot.Resolve

/-! What everybody is taken to keep to about a file and about the names of some processors: the file stays as it is
typed, the processors keep their names, and in logging contexts stand scalars. What may become of the trees that are
parked on the file is left open; whatever is allowed makes a discipline of this. -/
namespace Treeworks

/-- Whether all logging contexts, and those that can be brought back, hold scalars. -/
structure Machine.Plain (m : Machine) : Prop where
  cells : ∀ i, (m.cells.getD i ⟨0, .empty⟩).fields.Plain
  tokens : ∀ i, (m.store.tokens.getD i default).previous.fields.Plain

theorem LogContext.Plain.getD_set {cells : Array Scope} {d x : Scope} (h : ∀ i, (cells.getD i d).fields.Plain)
    (hx : x.fields.Plain) {j : Nat} (i : Nat) : ((cells.set! j x).getD i d).fields.Plain := by
  have hi := h i
  rw [Array.getD_eq_getD_getElem?] at hi
  simp only [Array.getD_eq_getD_getElem?, Array.set!_eq_setIfInBounds, Array.getElem?_setIfInBounds]
  split
  · split
    · exact hx
    · rename_i hlt
      rw [Array.getElem?_eq_none (by omega)] at hi
      exact hi
  · exact hi

namespace Machine.Plain
variable {m m' : Machine}

/-- Whether all contexts are plain depends on the lines of control and on the contexts that can be brought back. -/
theorem of_eq (h : m.Plain) (hcells : m'.cells = m.cells) (htokens : m'.store.tokens = m.store.tokens) : m'.Plain where
  cells i := by
    rw [hcells]
    exact h.cells i
  tokens i := by
    rw [htokens]
    exact h.tokens i

theorem set_scope (h : m.Plain) {c : LogContext} (hc : c.Plain) (n : Nat) :
    Machine.Plain { m with stamps := n, cells := m.cells.set! m.cell ⟨n, c⟩ } where
  cells := LogContext.Plain.getD_set h.cells hc
  tokens := h.tokens

theorem push_cell (h : m.Plain) : Machine.Plain { m with cells := m.cells.push m.scope } where
  cells i := by
    simp only [Array.getD_eq_getD_getElem?, Array.getElem?_push]
    split
    · exact h.cells _
    · have hcell := h.cells i
      rwa [Array.getD_eq_getD_getElem?] at hcell
  tokens := h.tokens

theorem push_token (h : m.Plain) : Machine.Plain
    { m with store := { m.store with tokens := m.store.tokens.push ⟨m.cell, m.scope, false⟩ } } where
  cells := h.cells
  tokens i := by
    simp only [Array.getD_eq_getD_getElem?, Array.getElem?_push]
    split
    · exact h.cells _
    · have htoken := h.tokens i
      rwa [Array.getD_eq_getD_getElem?] at htoken

theorem use_token (h : m.Plain) (token : Nat) : Machine.Plain { m with
    cells := m.cells.set! m.cell (m.store.tokens.getD token default).previous
    store := { m.store with tokens := m.store.tokens.modify token fun t => { t with used := true } } } where
  cells := LogContext.Plain.getD_set h.cells (h.tokens token)
  tokens i := by
    have htoken := h.tokens i
    rw [Array.getD_eq_getD_getElem?] at htoken
    simp only [Array.getD_eq_getD_getElem?, Array.getElem?_modify]
    split
    · cases ht : m.store.tokens[i]? with
      | none => simpa [ht] using htoken
      | some t => simpa [ht] using htoken
    · exact htoken

end Machine.Plain

namespace Store
variable {s s' : Store}

theorem member?_congr (h : ∀ i, (s.type i).Alike (s'.type i)) (i : Nat) {name : String}
    (hname : name ≠ "__annotations__") : s'.member? i name = s.member? i name := by
  unfold member?
  rw [(h i).ancestry]
  congr 1
  funext j
  rw [(h j).attrs name hname, (h j).role]

theorem typeAttr?_congr (h : ∀ i, (s.type i).Alike (s'.type i)) (i : Nat) {name : String}
    (hname : name ≠ "__annotations__") : s'.typeAttr? i name = s.typeAttr? i name := by
  unfold typeAttr?
  rw [member?_congr h i hname]

/-- The name of a processor depends on its classes and its own dictionary. -/
theorem Named.congr {p : Nat} {name : String} (h : s.Named p name) (htypes : ∀ i, (s.type i).Alike (s'.type i))
    (hp : s'.processor p = s.processor p) (hsize : s.dicts.size ≤ s'.dicts.size)
    (hfields : s'.dict (s.processor p).fields = s.dict (s.processor p).fields) : s'.Named p name := by
  have hoffered : s'.typeAttr? (s.processor p).type "name" = s.typeAttr? (s.processor p).type "name" :=
    typeAttr?_congr htypes _ (by decide)
  refine ⟨?_, ?_, ?_, ?_⟩
  · rw [hp]
    exact Nat.lt_of_lt_of_le h.fields_lt hsize
  · rw [hp, typeAttr?_congr htypes _ (by decide)]
    exact h.direct
  · rw [hp, hoffered]
    exact h.offered
  · have hnamed := h.named
    unfold instanceAttr? at hnamed ⊢
    rw [hp, hoffered, show s'.field? (s.processor p) "name" = s.field? (s.processor p) "name" by
      unfold field?
      rw [hfields]]
    exact hnamed

end Store

/-- Whether a file is as it is typed and processors have the names that are given, apart from the file. -/
structure Proper (f : Nat) (names : Nat → Option String) (m : Machine) : Prop where
  shelved : m.store.Shelved f
  plain : m.Plain
  named : ∀ {p name}, names p = some name → m.store.Named p name
  apart : ∀ {p name}, names p = some name → ¬ m.store.OnShelf f (m.store.processor p).fields

/-- What everybody keeps to: no dictionary that was there comes onto the shelf of the file, and no processor gets
another dictionary of its attributes. -/
structure Abides (f : Nat) (names : Nat → Option String) (m m' : Machine) : Prop where
  proper : Proper f names m'
  size : m.store.dicts.size ≤ m'.store.dicts.size
  shelf : ∀ i < m.store.dicts.size, m'.store.OnShelf f i → m.store.OnShelf f i
  fields : ∀ {p name}, names p = some name → (m'.store.processor p).fields = (m.store.processor p).fields

namespace Abides
variable {f : Nat} {names : Nat → Option String} {a b c m m' : Machine}

theorem refl (h : Proper f names m) : Abides f names m m := ⟨h, Nat.le_refl _, fun _ _ => id, fun _ => rfl⟩

theorem trans (h : Abides f names a b) (h' : Abides f names b c) : Abides f names a c where
  proper := h'.proper
  size := Nat.le_trans h.size h'.size
  shelf i hi e := h.shelf i hi (h'.shelf i (Nat.lt_of_lt_of_le hi h.size) e)
  fields hp := (h'.fields hp).trans (h.fields hp)

/-- What happens on the shelf alone is kept to. -/
theorem of_beside (h : Proper f names m) (hb : Beside f m m') : Abides f names m m' := by
  have hprocessor (p : Nat) : m'.store.processor p = m.store.processor p := by
    unfold Store.processor
    rw [hb.processors]
  refine ⟨⟨hb.shelved, h.plain.of_eq hb.cells hb.tokens, fun hp => ?_, fun hp hon => ?_⟩, hb.size, hb.shelf, fun _ => ?_⟩
  · exact (h.named hp).congr hb.types (hprocessor _) hb.size (hb.dicts _ (h.named hp).fields_lt (h.apart hp))
  · rw [hprocessor] at hon
    exact h.apart hp (hb.shelf _ (h.named hp).fields_lt hon)
  · rw [hprocessor]

/-- What leaves the file as it is typed, and leaves the dictionary of its bags and the processors as they are, is kept to,
whatever becomes of the bags. -/
theorem of_root (h : Proper f names m) (hfiles : m.store.files.size ≤ m'.store.files.size)
    (hattrs : (m'.store.file f).attrs = []) (hfilename : (m'.store.file f).filename.isPathPart = true)
    (hdirectory : (m'.store.file f).directory.isPathPart = true)
    (hextension : (m'.store.file f).extension.isPathPart = true) (hbags : (m'.store.file f).bags = (m.store.file f).bags)
    (hroot : ∀ d, (m.store.file f).bags = .dict d → m'.store.dict d = m.store.dict d)
    (hsize : m.store.dicts.size ≤ m'.store.dicts.size) (htypes : ∀ i, (m.store.type i).Alike (m'.store.type i))
    (hprocessors : ∀ {p name}, names p = some name → m'.store.processor p = m.store.processor p ∧
      m'.store.dict (m.store.processor p).fields = m.store.dict (m.store.processor p).fields)
    (hplain : m'.Plain) : Abides f names m m' := by
  obtain ⟨d, hd, hlt, hin⟩ := h.shelved.bags
  have hbag (name : String) : m'.store.bag? f name = m.store.bag? f name := by
    unfold Store.bag?
    rw [hbags, hd]
    dsimp only
    rw [hroot d hd]
  have hon (i : Nat) : m'.store.OnShelf f i ↔ m.store.OnShelf f i := by simp only [Store.OnShelf, hbags, hbag]
  have hshelved : m'.store.Shelved f := by
    refine ⟨Nat.lt_of_lt_of_le h.shelved.file_lt hfiles, hattrs, hfilename, hdirectory, hextension,
      ⟨d, hbags.trans hd, Nat.lt_of_lt_of_le hlt hsize, fun name v hv => ?_⟩, fun hb hb' => ?_⟩
    · rw [hroot d hd] at hv
      obtain ⟨b, rfl, hb, hne⟩ := hin name v hv
      exact ⟨b, rfl, Nat.lt_of_lt_of_le hb hsize, hne⟩
    · rw [hbag] at hb hb'
      exact h.shelved.apart hb hb'
  refine ⟨⟨hshelved, hplain, fun hp => ?_, fun hp => ?_⟩, hsize, fun i _ => (hon i).mp, fun hp => ?_⟩
  · exact (h.named hp).congr htypes (hprocessors hp).1 hsize (hprocessors hp).2
  · rw [(hprocessors hp).1, hon]
    exact h.apart hp
  · rw [(hprocessors hp).1]

/-- What happens neither to the file, nor to its shelf, nor to the processors, is kept to; the trees stay. -/
theorem of_elsewhere (h : Proper f names m) (hfile : m'.store.file f = m.store.file f)
    (hfiles : m.store.files.size ≤ m'.store.files.size)
    (hshelf : ∀ i, m.store.OnShelf f i → m'.store.dict i = m.store.dict i)
    (hfields : ∀ {p name}, names p = some name →
      m'.store.dict (m.store.processor p).fields = m.store.dict (m.store.processor p).fields)
    (hsize : m.store.dicts.size ≤ m'.store.dicts.size) (htypes : m'.store.types = m.store.types)
    (hprocessors : m'.store.processors = m.store.processors) (hplain : m'.Plain) :
    Abides f names m m' ∧ m'.trees f = m.trees f := by
  obtain ⟨hshelved, hparked, hon⟩ := h.shelved.congr hfile hfiles hshelf hsize
  have hprocessor (p : Nat) : m'.store.processor p = m.store.processor p := by
    unfold Store.processor
    rw [hprocessors]
  have halike (i : Nat) : (m.store.type i).Alike (m'.store.type i) := by
    unfold Store.type
    rw [htypes]
    exact ⟨rfl, rfl, fun _ _ => rfl⟩
  refine ⟨⟨⟨hshelved, hplain, fun hp => ?_, fun hp => ?_⟩, hsize, fun i _ => (hon i).mp, fun _ => ?_⟩, funext hparked⟩
  · exact (h.named hp).congr halike (hprocessor _) hsize (hfields hp)
  · rw [hprocessor, hon]
    exact h.apart hp
  · rw [hprocessor]

end Abides

/-- What may become of the trees of a file: at least nothing. -/
structure Custom (f : Nat) (names : Nat → Option String) where
  allows : Machine → Machine → Prop
  trans : ∀ {a b c}, allows a b → allows b c → allows a c
  steady : ∀ {m m'}, Abides f names m m' → m'.trees f = m.trees f → allows m m'

/-- Something that is new and neither of a file's shelf nor of the processors. -/
def IsSpare (f : Nat) (names : Nat → Option String) (m : Machine) : Value → Prop
  | .dict i => Proper f names m ∧ i < m.store.dicts.size ∧ ¬ m.store.OnShelf f i ∧
      ∀ {p name}, names p = some name → (m.store.processor p).fields ≠ i
  | .file j => Proper f names m ∧ j ≠ f
  | _ => False

namespace Custom
variable {f : Nat} {names : Nat → Option String}

theorem of_elsewhere (C : Custom f names) {m m' : Machine} (h : Proper f names m)
    (hfile : m'.store.file f = m.store.file f) (hfiles : m.store.files.size ≤ m'.store.files.size)
    (hdicts : ∀ i, m.store.OnShelf f i ∨ (∃ p name, names p = some name ∧ (m.store.processor p).fields = i) →
      m'.store.dict i = m.store.dict i)
    (hsize : m.store.dicts.size ≤ m'.store.dicts.size) (htypes : m'.store.types = m.store.types)
    (hprocessors : m'.store.processors = m.store.processors) (hplain : m'.Plain) :
    Abides f names m m' ∧ C.allows m m' := by
  obtain ⟨hab, htrees⟩ := Abides.of_elsewhere h hfile hfiles (fun i hi => hdicts i (.inl hi))
    (fun hp => hdicts _ (.inr ⟨_, _, hp, rfl⟩)) hsize htypes hprocessors hplain
  exact ⟨hab, C.steady hab htrees⟩

/-- Everybody keeps to what is allowed. -/
def discipline (C : Custom f names) : Discipline where
  holds m m' := Proper f names m → Abides f names m m' ∧ C.allows m m'
  proper := Proper f names
  spare := IsSpare f names
  refl m h := ⟨.refl h, C.steady (.refl h) rfl⟩
  trans h h' hm := by
    obtain ⟨hab, ha⟩ := h hm
    obtain ⟨hab', ha'⟩ := h' hab.proper
    exact ⟨hab.trans hab', C.trans ha ha'⟩
  of_proper h hm := h hm hm
  proper_of_holds h hm := (h hm).1.proper
  plain h := h.plain.cells _
  aside haside hm := by
    obtain ⟨hbeside, htrees⟩ := Beside.of_aside hm.shelved haside
    have hab := Abides.of_beside hm hbeside
    exact ⟨hab, C.steady hab htrees⟩
  spare_dict {m} hm t := by
    obtain ⟨hbeside, -⟩ := Beside.of_aside hm.shelved (Aside.addDict m t)
    have hfile : (m.store.addDict t).2.file f = m.store.file f := rfl
    have hon := (hm.shelved.congr hfile (Nat.le_refl _) (fun i hi =>
      (Aside.addDict m t).dicts.same i (hm.shelved.lt_of_onShelf hi) []) (Aside.addDict m t).dicts.size).2.2
    refine ⟨(Abides.of_beside hm hbeside).proper, by simp [Store.addDict], fun e => ?_, fun hp => ?_⟩
    · exact Nat.lt_irrefl _ (hm.shelved.lt_of_onShelf ((hon _).mp e))
    · exact Nat.ne_of_lt (hm.named hp).fields_lt
  spare_file {m} hm c := by
    obtain ⟨hbeside, -⟩ := Beside.of_aside hm.shelved (Aside.addFile m c)
    exact ⟨(Abides.of_beside hm hbeside).proper, Nat.ne_of_gt hm.shelved.file_lt⟩
  spare_of_holds {m m' v} h hv := by
    cases v with
    | dict i =>
      obtain ⟨hm, hi, hon, hfields⟩ := hv
      have hab := (h hm).1
      refine ⟨hab.proper, Nat.lt_of_lt_of_le hi hab.size, fun e => hon (hab.shelf i hi e), fun hp => ?_⟩
      rw [hab.fields hp]
      exact hfields hp
    | file j =>
      obtain ⟨hm, hj⟩ := hv
      exact ⟨(h hm).1.proper, hj⟩
    | _ => exact hv.elim
  write_dict {m i} hi g hm := by
    obtain ⟨-, hlt, hon, hfields⟩ := hi
    refine C.of_elsewhere hm rfl (Nat.le_refl _) (fun j hj => ?_) (by simp [Store.updateDict]) rfl rfl
      ⟨hm.plain.cells, hm.plain.tokens⟩
    have hij : i ≠ j := by
      rintro rfl
      rcases hj with hj | ⟨p, name, hp, hj⟩
      · exact hon hj
      · exact hfields hp hj
    rw [Store.dict_updateDict, if_neg fun hc => hij hc.1]
  write_file {m j} hj g hm := by
    have hfile : (m.store.updateFile j g).file f = m.store.file f := by
      simp [Store.file, Store.updateFile, Array.getElem?_modify, hj.2]
    exact C.of_elsewhere hm hfile (by simp [Store.updateFile]) (fun _ _ => rfl) (Nat.le_refl _) rfl rfl
      ⟨hm.plain.cells, hm.plain.tokens⟩
  set_scope hc hm :=
    C.of_elsewhere hm rfl (Nat.le_refl _) (fun _ _ => rfl) (Nat.le_refl _) rfl rfl (hm.plain.set_scope hc _)
  push_cell _ hm := C.of_elsewhere hm rfl (Nat.le_refl _) (fun _ _ => rfl) (Nat.le_refl _) rfl rfl hm.plain.push_cell
  push_token _ hm := C.of_elsewhere hm rfl (Nat.le_refl _) (fun _ _ => rfl) (Nat.le_refl _) rfl rfl hm.plain.push_token
  use_token _ token hm :=
    C.of_elsewhere hm rfl (Nat.le_refl _) (fun _ _ => rfl) (Nat.le_refl _) rfl rfl (hm.plain.use_token token)

end Custom

/-- Whether a discipline is asked of machines alone in which a file is as it is typed and processors have their names. -/
class Discipline.Knows (D : Discipline) (f : outParam Nat) (names : outParam (Nat → Option String)) : Prop where
  proper : ∀ {m}, D.proper m → Proper f names m

instance {f : Nat} {names : Nat → Option String} (C : Custom f names) : C.discipline.Knows f names := ⟨id⟩

namespace Store
variable {s : Store} {f d b : Nat} {name : String}

theorem bag?_of_single (hd : (s.file f).bags = .dict d) (hbags : s.dict d = [(.str name, .dict b)]) (other : String) :
    s.bag? f other = if other = name then some b else none := by
  unfold bag?
  rw [hd]
  dsimp only
  rw [hbags, Entries.named?_cons]
  by_cases h : other = name
  · subst h
    simp
  · simp [Ne.symm h, h, Entries.named?, Entries.get?]

/-- A file with one bag is as it is typed. -/
theorem Shelved.of_single (hlt : f < s.files.size) (hattrs : (s.file f).attrs = [])
    (hpath : (s.file f).filename.isPathPart = true ∧ (s.file f).directory.isPathPart = true ∧
      (s.file f).extension.isPathPart = true)
    (hd : (s.file f).bags = .dict d) (hdlt : d < s.dicts.size) (hbags : s.dict d = [(.str name, .dict b)])
    (hblt : b < s.dicts.size) (hne : b ≠ d) : s.Shelved f where
  file_lt := hlt
  attrs := hattrs
  filename := hpath.1
  directory := hpath.2.1
  extension := hpath.2.2
  bags := by
    refine ⟨d, hd, hdlt, fun other v h => ⟨b, ?_, hblt, hne⟩⟩
    rw [hbags, Entries.named?_cons] at h
    split at h
    · exact (Option.some.inj h).symm
    · cases h
  apart {other another b'} h h' := by
    rw [bag?_of_single hd hbags] at h h'
    split at h <;> split at h'
    · simp_all
    · cases h'
    · cases h
    · cases h

end Store

/-! ### A small machine -/

/-- A machine with a processor of its own family, and with a file on which one tree is parked for it. -/
def Machine.desk (tree : Value) : Machine :=
  { (default : Machine) with
    store := { (default : Store) with
      types := #[⟨"P", "P", .null, .null, [], [0], [], .family, [], none, []⟩]
      processors := #[⟨0, 0, []⟩]
      dicts := #[[(.str "name", .str "n"), (.str "Compiler", .type 0)], [(.str "n", .dict 2)], [(.str "tree", tree)]]
      files := #[⟨.str "", .null, .null, .null, .bool false, .null, .dict 1, []⟩] } }

theorem bag_desk (tree : Value) (name : String) :
    (Machine.desk tree).store.bag? 0 name = if name = "n" then some 2 else none :=
  Store.bag?_of_single rfl rfl name

theorem shelved_desk (tree : Value) : (Machine.desk tree).store.Shelved 0 :=
  .of_single Nat.zero_lt_one rfl ⟨rfl, rfl, rfl⟩ (d := 1) rfl (show 1 < 3 by decide) rfl (show 2 < 3 by decide) (by decide)

theorem Machine.plain_default : (default : Machine).Plain := by
  have hempty : LogContext.Plain .empty := by
    intro v hv
    simp only [LogContext.empty, List.mem_cons, List.not_mem_nil, or_false, or_self] at hv
    rw [hv]
    rfl
  refine ⟨fun i => ?_, fun i => ?_⟩
  · exact hempty
  · exact hempty

theorem proper_desk (tree : Value) : Proper 0 (fun p => if p = 0 then some "n" else none) (Machine.desk tree) where
  shelved := shelved_desk tree
  plain := Machine.plain_default.of_eq rfl rfl
  named {p name} h := by
    split at h
    · subst ‹p = 0›
      cases h
      refine ⟨(show 0 < 3 by decide), rfl, fun v h => ?_, rfl⟩
      cases h
    · cases h
  apart {p name} h hon := by
    split at h
    · subst ‹p = 0›
      rcases hon with hon | ⟨other, hon⟩
      · cases hon
      · rw [bag_desk] at hon
        split at hon
        · cases hon
        · cases hon
    · cases h
end Treeworks
