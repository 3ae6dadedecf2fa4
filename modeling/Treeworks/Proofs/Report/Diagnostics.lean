import Treeworks.Script.Body
import Treeworks.Proofs.Attach.Leaf
import Treeworks.Proofs.Report.Noting
import Treeworks.Proofs.Report.Positions

/-! The diagnostics of a file. A message is made of the path that the file has then, of a position and of a reason, and
stays as it is. What is warned of and what fails is recorded, in order; what fails is raised unless the file is quiet. -/
namespace Treeworks

/-! ### Files and their paths -/

/-- The path of a file whose parts are texts or not there. -/
def Carrier.path (f : Carrier) : String :=
  match f.filename with
  | .str name =>
    let path := match f.extension with
      | .str ending => if ending = "" then name else name ++ "." ++ ending
      | _ => name
    let full := match f.directory with
      | .str directory => if directory = "" then path else Work.withoutSlashes directory ++ "/" ++ path
      | _ => path
    if name = "" then "" else full
  | _ => ""

/-- A file as it is typed, to which no attribute was added. -/
structure Carrier.Typed (f : Carrier) : Prop where
  attrs : f.attrs = []
  filename : f.filename.isPathPart = true
  directory : f.directory.isPathPart = true
  extension : f.extension.isPathPart = true
  quiet : f.quiet.isScalar = true

namespace Store

theorem truthy_str (s : Store) (t : String) : s.truthy (.str t) = decide (t ≠ "") := by
  simp [truthy, length?, elements?, Text.symbols_eq_nil]

end Store

namespace Work
variable {m : Machine} {f : Nat}

theorem gives_truth_str (t : String) (m : Machine) : (truth (.str t)).Gives m (decide (t ≠ "")) m := by
  rw [← m.store.truthy_str]
  exact gives_truth_of_isScalar rfl m

/-- A file without attributes of its own has nothing in the place of its methods. -/
theorem attr?_of_typed (h : (m.store.file f).Typed) {name : String}
    (hname : Table.get? (Store.carrierAttrs (m.store.file f)) name = none) (hclass : name ≠ "__class__") :
    m.store.attr? (.file f) name = none := by
  have hown : m.store.ownAttr? (.file f) name = none := by
    unfold Store.ownAttr?
    dsimp only
    rw [h.attrs]
    exact hname
  unfold Store.attr?
  rw [hown]
  exact if_neg hclass

theorem overridden_of_typed (h : (m.store.file f).Typed) {name : String}
    (hname : Table.get? (Store.carrierAttrs (m.store.file f)) name = none) (hclass : name ≠ "__class__")
    (args : List Value) (usual : Work Value) (σ : Service) : overridden (.file f) name args usual σ m = usual σ m := by
  unfold overridden
  rw [(gives_query _ m).bind_eq, attr?_of_typed h hname hclass]

/-- The path of a file is made of its parts. -/
theorem gives_filePath (h : (m.store.file f).Typed) : (filePath f).Gives m (.str (m.store.file f).path) m := by
  intro σ
  unfold filePath writtenDepth pathAt
  rw [overridden_of_typed h rfl (by decide)]
  have hformatted (t : String) (m : Machine) : (formattedAt 949 (.str t)).Gives m t m := gives_formatted_str 947 t m
  suffices hgives : Gives _ m _ m from hgives σ
  refine (gives_query _ m).bind ?_
  unfold Carrier.path
  rcases Value.eq_of_isPathPart h.filename with hname | ⟨name, hname⟩ <;> rw [hname]
  · exact (gives_truth_of_isScalar rfl m).bind (gives_pure _ m)
  refine (gives_truth_str name m).bind ?_
  by_cases hempty : name = ""
  · subst hempty
    exact gives_pure _ m
  rw [decide_eq_true hempty]
  simp only [hempty, if_false, Bool.not_true, Bool.false_eq_true]
  -- The directory stands before whatever the rest of the path is.
  have hdirectory {path : Value} {t : String} (hpath : path = .str t) : (do
      if !(← truth (m.store.file f).directory) then return path
      let directory ← match (m.store.file f).directory with
        | .str t => pure (withoutSlashes t)
        | v => do formattedAt 949 (← callMethod v "rstrip" [.str "/"])
      return .str (directory ++ "/" ++ (← formattedAt 949 path)) : Work Value).Gives m
        (.str (match (m.store.file f).directory with
          | .str directory => if directory = "" then t else withoutSlashes directory ++ "/" ++ t
          | _ => t)) m := by
    subst hpath
    rcases Value.eq_of_isPathPart h.directory with hdir | ⟨dir, hdir⟩ <;> rw [hdir]
    · exact (gives_truth_of_isScalar rfl m).bind (gives_pure _ m)
    refine (gives_truth_str dir m).bind ?_
    by_cases hnone : dir = ""
    · subst hnone
      exact gives_pure _ m
    · rw [decide_eq_true hnone]
      simp only [hnone, if_false]
      exact (gives_pure _ m).bind ((hformatted t m).bind (gives_pure _ m))
  rcases Value.eq_of_isPathPart h.extension with hext | ⟨ext, hext⟩ <;> rw [hext]
  · exact (gives_truth_of_isScalar rfl m).bind ((gives_pure _ m).bind (hdirectory rfl))
  refine (gives_truth_str ext m).bind ?_
  by_cases hnone : ext = ""
  · subst hnone
    exact (gives_pure _ m).bind (hdirectory rfl)
  · rw [decide_eq_true hnone]
    simp only [hnone, if_false]
    exact (hformatted name m).bind ((hformatted ext m).bind ((gives_pure _ m).bind (hdirectory rfl)))

end Work

/-! ### What leaves the diagnostics of a file alone -/

/-- What is known of an error as long as it is only raised and handled. -/
def Fault.core (f : Fault) : FaultDetail × Table Value := (f.detail, f.attrs)

namespace Store

/-- The store after an error has become a diagnostic of other parts. -/
def marked (s : Store) (i : Nat) (d : Diagnostic) : Store :=
  s.updateFault i fun _ => { s.fault i with detail := .diagnostic d }

theorem size_marked (s : Store) (i : Nat) (d : Diagnostic) : (s.marked i d).faults.size = s.faults.size :=
  Array.size_modify

theorem fault_updateFault (s : Store) (i : Nat) (g : Fault → Fault) (j : Nat) :
    (s.updateFault i g).fault j = if i = j ∧ j < s.faults.size then g (s.fault j) else s.fault j := by
  unfold fault updateFault
  simp only [Array.getD_eq_getD_getElem?, Array.getElem?_modify]
  by_cases hj : j < s.faults.size
  · by_cases hi : i = j <;> simp [hj, hi]
  · simp [hj]

theorem fault_marked_of_ne (s : Store) {i j : Nat} (h : i ≠ j) (d : Diagnostic) : (s.marked i d).fault j = s.fault j := by
  rw [marked, fault_updateFault, if_neg fun hij => h hij.1]

theorem runner_addFault (s : Store) (detail : FaultDetail) (args : List Value) (cause : Value) :
    (s.addFault detail args cause).2.runner = s.runner := by
  cases args <;> rfl

theorem core_marked {s : Store} {i : Nat} (hi : i < s.faults.size) {detail : FaultDetail} {attrs : Table Value}
    (h : (s.fault i).core = (detail, attrs)) (d : Diagnostic) :
    ((s.marked i d).fault i).core = (.diagnostic d, attrs) := by
  have hattrs : (s.fault i).attrs = attrs := congrArg Prod.snd h
  rw [marked, fault_updateFault, if_pos ⟨rfl, hi⟩]
  exact Prod.ext rfl hattrs

end Store

/-- A store whose errors may have been raised and handled meanwhile, and which is else as it was. -/
structure Store.SameErrors (s s' : Store) : Prop where
  rest : ∃ faults, s' = { s with faults := faults }
  size : s'.faults.size = s.faults.size
  core : ∀ i, (s'.fault i).core = (s.fault i).core

namespace Store.SameErrors
variable {a b c : Store}

theorem refl (s : Store) : s.SameErrors s := ⟨⟨_, rfl⟩, rfl, fun _ => rfl⟩

theorem trans (h : a.SameErrors b) (h' : b.SameErrors c) : a.SameErrors c where
  rest := by
    obtain ⟨faults, rfl⟩ := h.rest
    obtain ⟨faults', rfl⟩ := h'.rest
    exact ⟨faults', rfl⟩
  size := h'.size.trans h.size
  core i := (h'.core i).trans (h.core i)

theorem updateFault (s : Store) (i : Nat) {g : Fault → Fault} (hg : ∀ x, (g x).core = x.core) :
    s.SameErrors (s.updateFault i g) where
  rest := ⟨_, rfl⟩
  size := Array.size_modify
  core j := by
    rw [fault_updateFault]
    split
    · exact hg _
    · rfl

theorem withoutReturn (s : Store) (error : Value) (fuel : Nat) (handled : Value) :
    s.SameErrors (s.withoutReturn error fuel handled) := by
  fun_induction Store.withoutReturn s error fuel handled with
  | case1 =>
    apply updateFault
    exact fun _ => rfl
  | case2 _ _ _ _ ih => exact ih
  | case3 => exact refl s

/-- An error that is raised is the same as before, and so are all others. -/
theorem noteRaised (s : Store) (error handled : Value) : s.SameErrors (s.noteRaised error handled) := by
  unfold Store.noteRaised
  split
  · rename_i i
    have hraised : s.SameErrors (s.updateFault i fun f => { f with raised := true }) := by
      apply updateFault
      exact fun _ => rfl
    dsimp only
    split
    · exact hraised
    · refine hraised.trans ?_
      generalize s.updateFault i (fun f => { f with raised := true }) = raised
      refine (withoutReturn raised (.fault i) raised.faults.size handled).trans ?_
      apply updateFault
      exact fun _ => rfl
  · exact refl s

end Store.SameErrors

namespace Machine

/-- What happens elsewhere than to a file, its messages and the errors that are there. -/
structure Spares (f : Nat) (m m' : Machine) : Prop where
  file : m'.store.file f = m.store.file f
  files : m.store.files.size ≤ m'.store.files.size
  messages : ∀ l, (m.store.file f).messages = .list l → l < m.store.lists.size →
    l < m'.store.lists.size ∧ m'.store.list l = m.store.list l
  faults : m.store.faults.size ≤ m'.store.faults.size
  core : ∀ i < m.store.faults.size, (m'.store.fault i).core = (m.store.fault i).core
  tame : m.Tame → m'.Tame

namespace Spares
variable {f : Nat} {a b c m m' : Machine}

theorem refl (f : Nat) (m : Machine) : m.Spares f m where
  file := rfl
  files := Nat.le_refl _
  messages _ _ hl := ⟨hl, rfl⟩
  faults := Nat.le_refl _
  core _ _ := rfl
  tame := id

theorem trans (h : a.Spares f b) (h' : b.Spares f c) : a.Spares f c where
  file := h'.file.trans h.file
  files := Nat.le_trans h.files h'.files
  messages l hl hlt := by
    obtain ⟨hlt', hlist⟩ := h.messages l hl hlt
    obtain ⟨hlt'', hlist'⟩ := h'.messages l (h.file ▸ hl) hlt'
    exact ⟨hlt'', hlist'.trans hlist⟩
  faults := Nat.le_trans h.faults h'.faults
  core i hi := (h'.core i (Nat.lt_of_lt_of_le hi h.faults)).trans (h.core i hi)
  tame := h'.tame ∘ h.tame

theorem of_noted (h : m.Noted m') : m.Spares f m' where
  file := by rw [h.store]
  files := by rw [h.store]
  messages l _ hlt := by rw [h.store]; exact ⟨hlt, rfl⟩
  faults := by rw [h.store]
  core i _ := by rw [h.store]
  tame := h.tame

/-- A new error is another than those that are there. -/
theorem addFault (f : Nat) (m : Machine) (detail : FaultDetail) (args : List Value) (cause : Value) :
    m.Spares f { m with store := (m.store.addFault detail args cause).2 } := by
  have htuple : (m.store.addTuple args).2.files = m.store.files ∧ (m.store.addTuple args).2.lists = m.store.lists ∧
      (m.store.addTuple args).2.faults = m.store.faults := by
    unfold Store.addTuple
    split <;> exact ⟨rfl, rfl, rfl⟩
  obtain ⟨hfiles, hlists, hfaults⟩ := htuple
  unfold Store.addFault
  generalize m.store.addTuple args = added at hfiles hlists hfaults
  obtain ⟨v, s⟩ := added
  dsimp only at hfiles hlists hfaults
  exact {
    file := by simp only [Store.file, hfiles]
    files := Nat.le_of_eq (by simp only [hfiles])
    messages := fun l _ hlt => by
      simp only [Store.list, hlists]
      exact ⟨hlt, trivial⟩
    faults := by simp only [Array.size_push, hfaults]; omega
    core := fun i hi => by
      have hi' : i < s.faults.size := hfaults ▸ hi
      simp only [Store.fault, Array.getD_eq_getD_getElem?, Array.getElem?_push_lt hi']
      simp only [hfaults, hi, Array.getElem?_eq_getElem]
    tame := fun h => ⟨h.plain, h.lists⟩ }

theorem of_sameErrors {s : Store} (f : Nat) (h : m.store.SameErrors s) : m.Spares f { m with store := s } := by
  obtain ⟨⟨faults, rfl⟩, hsize, hcore⟩ := h
  exact {
    file := rfl
    files := Nat.le_refl _
    messages := fun _ _ hlt => ⟨hlt, rfl⟩
    faults := Nat.le_of_eq hsize.symm
    core := fun i _ => hcore i
    tame := fun h => ⟨h.plain, h.lists⟩ }

end Spares
end Machine

/-! ### Messages -/

/-- What is read for a message: what its reason says and in which words, and the name and the start of its position. -/
structure Reading where
  said : Value
  words : String
  name : String
  start : Point

/-- A message as it was made: what was read for it, the error that it is, the reason, the path that the file had, whether it
is fatal, and whether it was recorded. -/
structure Remark extends Reading where
  index : Nat
  reason : Value
  path : String
  fatal : Bool
  kept : Bool

namespace Remark

/-- The message itself. -/
def value (r : Remark) : Value := .fault r.index

/-- What the message holds. -/
def diagnostic (r : Remark) : Diagnostic :=
  Work.diagnosticAt r.reason r.said r.name r.start (.str r.path) (.bool r.fatal)

/-- The text of the message: the path if there is one, the position and the reason. -/
def text (r : Remark) : String := (if r.path = "" then r.name else r.path ++ ":" ++ r.name) ++ ": " ++ r.words

end Remark

/-- What is known of a message: it is an error that was made, it is as it was made, and its reason has words everywhere. -/
structure Machine.Holds (m : Machine) (r : Remark) : Prop where
  lt : r.index < m.store.faults.size
  core : (m.store.fault r.index).core = (.diagnostic r.diagnostic, [])
  scalar : r.said.isScalar = true
  words : ∀ m', (Work.formatted r.said).Gives m' r.words m'

/-- A file as it is typed, for which some messages were made. It lists those that were recorded, in order, and all of them
are as they were made. -/
structure Machine.Bears (m : Machine) (f : Nat) (made : List Remark) : Prop where
  lt : f < m.store.files.size
  typed : (m.store.file f).Typed
  messages : ∃ l, (m.store.file f).messages = .list l ∧ l < m.store.lists.size ∧
    m.store.list l = (made.filter (·.kept)).map Remark.value
  holds : ∀ r ∈ made, m.Holds r
  ascending : made.Pairwise fun r r' => r.index < r'.index

namespace Machine
variable {m m' : Machine} {f : Nat} {made : List Remark} {r : Remark}

theorem Holds.spares (h : m.Holds r) (hs : m.Spares f m') : m'.Holds r where
  lt := Nat.lt_of_lt_of_le h.lt hs.faults
  core := (hs.core _ h.lt).trans h.core
  scalar := h.scalar
  words := h.words

namespace Bears

theorem spares (h : m.Bears f made) (hs : m.Spares f m') : m'.Bears f made where
  lt := Nat.lt_of_lt_of_le h.lt hs.files
  typed := hs.file ▸ h.typed
  messages := by
    obtain ⟨l, hl, hlt, hlist⟩ := h.messages
    obtain ⟨hlt', hlist'⟩ := hs.messages l hl hlt
    exact ⟨l, hs.file ▸ hl, hlt', hlist'.trans hlist⟩
  holds r hr := (h.holds r hr).spares hs
  ascending := h.ascending

/-- A message more that is not recorded. -/
theorem append (h : m.Bears f made) (hs : m.Spares f m') (hnew : m.store.faults.size ≤ r.index) (hkept : r.kept = false)
    (hholds : m'.Holds r) : m'.Bears f (made ++ [r]) where
  lt := (h.spares hs).lt
  typed := (h.spares hs).typed
  messages := by
    obtain ⟨l, hl, hlt, hlist⟩ := (h.spares hs).messages
    refine ⟨l, hl, hlt, ?_⟩
    rw [hlist, List.filter_append]
    simp [hkept]
  holds r' hr' := by
    rcases List.mem_append.mp hr' with hr' | hr'
    · exact (h.spares hs).holds r' hr'
    · obtain rfl := List.mem_singleton.mp hr'
      exact hholds
  ascending := by
    refine List.pairwise_append.mpr ⟨h.ascending, List.pairwise_singleton _ _, fun r₁ h₁ r₂ h₂ => ?_⟩
    obtain rfl := List.mem_singleton.mp h₂
    exact Nat.lt_of_lt_of_le (h.holds r₁ h₁).lt hnew

/-- The last message is marked and recorded. -/
theorem record (h : m.Bears f (made ++ [r])) (hkept : r.kept = false) (fatal : Bool) {l : Nat}
    (hl : (m.store.file f).messages = .list l) :
    { m with store := (m.store.marked r.index { r.diagnostic with fatal := .bool fatal }).pushed l r.value }.Bears f
      (made ++ [{ r with fatal := fatal, kept := true }]) := by
  let s : Store := m.store.marked r.index { r.diagnostic with fatal := .bool fatal }
  obtain ⟨hbefore, -, hless⟩ := List.pairwise_append.mp h.ascending
  have hr : m.Holds r := h.holds r (List.mem_append_right _ (.head _))
  obtain ⟨l', hl', hlt, hlist⟩ := h.messages
  obtain rfl : l' = l := by
    rw [hl] at hl'
    cases hl'
    rfl
  exact {
    lt := h.lt
    typed := h.typed
    messages := by
      refine ⟨l', hl, Nat.lt_of_lt_of_eq hlt Array.size_modify.symm, ?_⟩
      calc (s.pushed l' r.value).list l'
        _ = m.store.list l' ++ [r.value] := Store.list_pushed_self (s := s) hlt r.value
        _ = _ := by
          rw [hlist, List.filter_append, List.filter_append]
          simp [hkept, Remark.value]
    holds := by
      intro r' hr'
      rcases List.mem_append.mp hr' with hr' | hr'
      · have hheld : m.Holds r' := h.holds r' (List.mem_append_left _ hr')
        have hne : r.index ≠ r'.index := Nat.ne_of_gt (hless r' hr' r (.head _))
        have hsame : s.fault r'.index = m.store.fault r'.index := m.store.fault_marked_of_ne hne _
        exact ⟨Nat.lt_of_lt_of_eq hheld.lt (m.store.size_marked _ _).symm, (congrArg Fault.core hsame).trans hheld.core,
          hheld.scalar, hheld.words⟩
      · obtain rfl := List.mem_singleton.mp hr'
        exact ⟨Nat.lt_of_lt_of_eq hr.lt (m.store.size_marked _ _).symm, Store.core_marked hr.lt hr.core _, hr.scalar,
          hr.words⟩
    ascending := by
      refine List.pairwise_append.mpr ⟨hbefore, List.pairwise_singleton _ _, fun r₁ h₁ r₂ h₂ => ?_⟩
      obtain rfl := List.mem_singleton.mp h₂
      exact hless r₁ h₁ r (.head _) }

end Bears
end Machine

namespace Work
variable {σ : Service} {m m' : Machine} {f i : Nat} {made : List Remark} {reason position : Value} {x : Reading}

/-- What is looked up for a diagnostic: what its reason says, and the name and the start of its position. -/
def readFor (reason position : Value) : Work (Value × String × Point) := do
  let said ← saidOf reason
  let name ← positionName positionDepth position
  let start ← positionStart positionDepth position
  return (said, name, start)

theorem newDiagnostic_readFor (reason position file fatal : Value) : newDiagnostic reason position file fatal = (do
    let x ← readFor reason position
    make fun s => s.addFault (.diagnostic (diagnosticAt reason x.1 x.2.1 x.2.2 file fatal)) [x.1] .null) := by
  unfold readFor
  simp only [newDiagnostic_eq, bind_assoc]
  rfl

/-- Whether a reason and a position are read as what they are, which leaves the diagnostics of a file and the runner
alone. -/
structure Readable (σ : Service) (f : Nat) (m : Machine) (reason position : Value) (x : Reading) : Prop where
  ends : ∃ m', readFor reason position σ m = (.done (x.said, x.name, x.start), m') ∧ m.Spares f m' ∧
    m'.store.runner = m.store.runner
  scalar : x.said.isScalar = true
  words : ∀ m', (formatted x.said).Gives m' x.words m'

/-- A reason that has a text is readable at a position of finite nesting that nothing has to be asked for. -/
theorem readable_of_plain {said : Value} {l : Layout} (hsaid : (saidOf reason).Gives m said m)
    (hscalar : said.isScalar = true) (h : Plain m.store position l)
    (hpoints : ∀ p ∈ l.points, p.line.isScalar = true ∧ p.column.isScalar = true)
    (hdepth : l.depth ≤ positionDepth) : ∃ x, ∀ σ, Readable σ f m reason position x := by
  obtain ⟨words, hwords⟩ := exists_formattedAt hscalar
  obtain ⟨name, start, -, htold, -⟩ := h.told hpoints
  obtain ⟨hname, hstart⟩ := htold positionDepth hdepth
  have hread : (readFor reason position).Gives m (said, name, start) m :=
    hsaid.bind (hname.bind (hstart.bind (gives_pure _ m)))
  exact ⟨⟨said, words, name, start⟩, fun σ => ⟨⟨m, hread σ, .refl f m, rfl⟩, hscalar, hwords 947⟩⟩

/-- A message is made of what is read, and of the path that the file has. -/
theorem newMessage_ends (h : m.Bears f made) (hread : Readable σ f m reason position x) : ∃ i m',
    newMessage f reason position σ m = (.done (.fault i), m') ∧ m.Spares f m' ∧ m'.store.runner = m.store.runner ∧
      m'.Bears f (made ++ [⟨x, i, reason, (m.store.file f).path, false, false⟩]) := by
  obtain ⟨m₁, hreading, hspares, hrunner⟩ := hread.ends
  unfold newMessage
  rw [overridden_of_typed h.typed rfl (by decide), (gives_filePath h.typed).bind_eq, newDiagnostic_readFor, bind_eq, hreading]
  let r : Remark := ⟨x, m₁.store.faults.size, reason, (m.store.file f).path, false, false⟩
  let m₂ : Machine := { m₁ with store := (m₁.store.addFault (.diagnostic r.diagnostic) [x.said] .null).2 }
  have hmade : m.Spares f m₂ := hspares.trans (.addFault f m₁ _ _ _)
  obtain ⟨args, hfaults⟩ : ∃ args, m₂.store.faults = m₁.store.faults.push (.new (.diagnostic r.diagnostic) args .null) :=
    ⟨_, rfl⟩
  have hcore : (m₂.store.fault r.index).core = (.diagnostic r.diagnostic, []) := by
    simp [Store.fault, hfaults, r, Fault.core, Fault.new]
  have hlt : r.index < m₂.store.faults.size := by
    simp [hfaults, r]
  have hrunner' : m₂.store.runner = m.store.runner :=
    (m₁.store.runner_addFault (.diagnostic r.diagnostic) [x.said] .null).trans hrunner
  exact ⟨r.index, m₂, rfl, hmade, hrunner', h.append hmade hspares.faults rfl ⟨hlt, hcore, hread.scalar, hread.words⟩⟩

/-! ### Recording -/

/-- A part of a message is read off it. -/
theorem gives_attr_message {d : Diagnostic} (h : (m.store.fault i).core = (.diagnostic d, [])) {name : String} {v : Value}
    (hname : d.attrs.get? name = some v) : (attr (.fault i) name).Gives m v m := by
  obtain ⟨hdetail, hattrs⟩ := Prod.mk.inj h
  have hborn : ((m.store.fault i).bornAttrs i).get? name = some v := by
    have hfirst : ∀ t u : Table Value, Table.get? (t ++ u) name = (t.get? name).or (u.get? name) := by
      intro t u
      induction t with
      | nil => rfl
      | cons e t ih =>
        rw [List.cons_append, Table.get?, Table.get?, ih]
        split <;> rfl
    unfold Fault.bornAttrs FaultDetail.attrs
    rw [hdetail, hfirst, hfirst, hname]
    rfl
  have hown : m.store.ownAttr? (.fault i) name = some v := by
    unfold Store.ownAttr?
    dsimp only
    rw [hattrs]
    exact hborn
  refine gives_attr_of_isDirect rfl ?_
  unfold Store.attr?
  rw [hown]

theorem gives_setFatal {d : Diagnostic} (h : (m.store.fault i).core = (.diagnostic d, [])) (v : Value) :
    (setAttribute (.fault i) "fatal" v).Gives m () { m with store := m.store.marked i { d with fatal := v } } := by
  obtain ⟨hdetail, -⟩ := Prod.mk.inj h
  have hset : m.store.setAttr (.fault i) "fatal" v = .ok (m.store.marked i { d with fatal := v }) := by
    unfold Store.setAttr Store.setFaultAttr Store.withFaultAttr
    dsimp only
    rw [hdetail]
    rfl
  have hwritten : (accessor? (.fault i) "fatal" "__set__").Gives m none m := gives_accessor_of_isDirect rfl _ _ m
  refine hwritten.bind ((gives_special_of_instance? rfl _).bind fun σ => ?_)
  change (perhaps fun s => do return ((), ← s.setAttr (.fault i) "fatal" v) : Work Unit) σ m = _
  unfold perhaps
  dsimp only
  rw [hset]
  rfl

/-- A message that is recorded is the last of the file. -/
theorem recordMessage_ends (h : m.Bears f made) (hread : Readable σ f m reason position x) (fatal : Bool) : ∃ i m',
    recordMessage f reason position fatal σ m = (.done (.fault i), m') ∧ m'.store.file f = m.store.file f ∧
      m'.store.runner = m.store.runner ∧ (m.Tame → m'.Tame) ∧
      m'.Bears f (made ++ [⟨x, i, reason, (m.store.file f).path, fatal, true⟩]) := by
  obtain ⟨i, m₁, hmade, hspares, hrunner, hbears⟩ := newMessage_ends h hread
  obtain ⟨l, hl, -⟩ := hbears.messages
  let r : Remark := ⟨x, i, reason, (m.store.file f).path, false, false⟩
  have hcore : (m₁.store.fault i).core = (.diagnostic r.diagnostic, []) :=
    (hbears.holds r (List.mem_append_right _ (.head _))).core
  let m₂ : Machine := { m₁ with store := m₁.store.marked i { r.diagnostic with fatal := .bool fatal } }
  let m₃ : Machine := { m₂ with store := m₂.store.pushed l r.value }
  have hlist : (append (m₂.store.file f).messages (.fault i)).Gives m₂ () m₃ := by
    have hsame : m₂.store.file f = m₁.store.file f := rfl
    rw [hsame, hl]
    exact fun σ => rfl
  refine ⟨i, m₃, ?_, hspares.file, hrunner, fun hm => ?_, hbears.record rfl fatal hl⟩
  · unfold recordMessage
    rw [bind_eq, hmade]
    dsimp only
    rw [(gives_setFatal hcore (.bool fatal)).bind_eq, (gives_query _ m₂).bind_eq, hlist.bind_eq]
    rfl
  · obtain ⟨hplain, hlists⟩ := hspares.tame hm
    exact ⟨hplain, hlists⟩

end Work
end Treeworks
