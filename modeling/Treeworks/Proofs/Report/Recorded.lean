import Mathlib.Data.List.ReduceOption
import Treeworks.Proofs.Report.Diagnostics

/-! What is reported against a file over its history. Each message that is warned of and each that fails is recorded when it
is made, and only those; a failure is raised as the very message that was recorded, unless the file is quiet. -/
namespace Treeworks

/-- A message as it is made by a way of reporting it. -/
def Reading.remark (x : Reading) (how : Reporting) (index : Nat) (reason : Value) (path : String) : Remark :=
  ⟨x, index, reason, path, how = .fail, how ≠ .message⟩

namespace Machine

/-- Whether a file raises what fails. -/
def isLoud (m : Machine) (f : Nat) : Bool := !m.store.truthy (m.store.file f).quiet

/-- What is changed on a file itself leaves its messages where they are. -/
theorem Bears.updateFile {m : Machine} {f : Nat} {made : List Remark} (h : m.Bears f made) {g : Carrier → Carrier}
    (hmessages : (g (m.store.file f)).messages = (m.store.file f).messages) (htyped : (g (m.store.file f)).Typed) :
    { m with store := m.store.updateFile f g }.Bears f made := by
  have hfile : (m.store.updateFile f g).file f = g (m.store.file f) := by
    have hlt : f < m.store.files.size := h.lt
    unfold Store.updateFile Store.file
    simp only [Array.getD_eq_getD_getElem?, Array.getElem?_modify]
    simp [hlt]
  obtain ⟨l, hl, hlt, hlist⟩ := h.messages
  exact {
    lt := Nat.lt_of_lt_of_eq h.lt Array.size_modify.symm
    typed := by
      rw [← hfile] at htyped
      exact htyped
    messages := by
      refine ⟨l, ?_, hlt, hlist⟩
      dsimp only
      rw [hfile, hmessages, hl]
    holds := fun r hr => ⟨(h.holds r hr).lt, (h.holds r hr).core, (h.holds r hr).scalar, (h.holds r hr).words⟩
    ascending := h.ascending }

end Machine

namespace Work
variable {σ : Service} {m m' : Machine} {f : Nat} {made : List Remark} {reason position : Value} {x : Reading}

/-! ### Reports -/

/-- How a report against a file ends: with the message, which is raised if it fails and the file is loud. -/
def endOf (how : Reporting) (loud : Bool) (message : Value) : Outcome Value :=
  if how = .fail ∧ loud = true then .raised message else .done message

/-- A failure that was recorded is logged, and then raised or given as it is. -/
theorem raises_recorded {r : Remark} (h : m.Bears f (made ++ [r])) (hm : m.Tame) :
    ∃ m', m.Spares f m' ∧ m'.store.runner = m.store.runner ∧ (do
    let path ← trueOr (← attr r.value "file") .null
    log "unified.core.vfile" .debug "vfile.fail"
      [("file_path", path), ("reason", ← attr r.value "reason"), ("at", ← attr r.value "name")]
    if ← truth (← query (·.file f)).quiet then return r.value
    else raiseValue r.value : Work Value) σ m = (endOf .fail (m.isLoud f) r.value, m') := by
  have hr : m.Holds r := h.holds r (List.mem_append_right _ (.head _))
  let path : Value := if m.store.truthy (.str r.path) then .str r.path else .null
  have hpath : path.isScalar = true := by
    unfold path
    split <;> rfl
  have hfile : (attr r.value "file").Gives m (.str r.path) m := gives_attr_message hr.core rfl
  have hreason : (attr r.value "reason").Gives m r.said m := gives_attr_message hr.core rfl
  have hname : (attr r.value "name").Gives m (.str r.name) m := gives_attr_message hr.core rfl
  have hfields : ∀ e ∈ [("file_path", path), ("reason", r.said), ("at", .str r.name)], Fits e := by
    intro e he
    simp only [List.mem_cons, List.not_mem_nil, or_false] at he
    rcases he with rfl | rfl | rfl
    · exact ⟨hpath, by simp [unusualNames]⟩
    · exact ⟨hr.scalar, by simp [unusualNames]⟩
    · exact ⟨rfl, by simp [unusualNames]⟩
  have hmethod : LogMethod.debug ≠ .exception := by decide
  obtain ⟨_, m₁, hlogged, hnoted⟩ := notes_log (σ := σ) hm hmethod hfields "unified.core.vfile" "vfile.fail"
  have hquiet : (truth (m₁.store.file f).quiet).Gives m₁ (!m.isLoud f) m₁ := by
    rw [hnoted.store, Machine.isLoud, Bool.not_not, ← hnoted.store]
    exact gives_truth_of_isScalar (hnoted.store ▸ h.typed.quiet) m₁
  rw [hfile.bind_eq, (gives_trueOr_of_isScalar rfl _ m).bind_eq, hreason.bind_eq, hname.bind_eq, bind_eq, hlogged]
  dsimp only
  rw [(gives_query _ m₁).bind_eq, hquiet.bind_eq]
  -- A quiet file gives the message that it would have raised.
  cases m.isLoud f with
  | false => exact ⟨m₁, .of_noted hnoted, congrArg Store.runner hnoted.store, rfl⟩
  | true =>
    let m₂ : Machine := { m₁ with store := m₁.store.noteRaised r.value (m₁.handling.headD .null) }
    have herrors : m₁.store.SameErrors m₂.store := .noteRaised m₁.store r.value (m₁.handling.headD .null)
    obtain ⟨faults, hrest⟩ := herrors.rest
    have hrunner : m₂.store.runner = m₁.store.runner := by rw [hrest]
    exact ⟨m₂, (Machine.Spares.of_noted hnoted).trans (.of_sameErrors f herrors),
      hrunner.trans (congrArg Store.runner hnoted.store), rfl⟩

/-- A report ends with a message that is made then, is recorded unless it is only made, and is what is raised. -/
theorem report_ends (h : m.Bears f made) (hm : m.Tame) (hread : Readable σ f m reason position x) (how : Reporting) :
    ∃ i m', report how f reason position σ m = (endOf how (m.isLoud f) (.fault i), m') ∧
      m'.store.file f = m.store.file f ∧ m'.store.runner = m.store.runner ∧ m'.Tame ∧
      m'.Bears f (made ++ [x.remark how i reason (m.store.file f).path]) := by
  cases how with
  | message =>
    obtain ⟨i, m', hend, hspares, hrunner, hbears⟩ := newMessage_ends h hread
    exact ⟨i, m', hend, hspares.file, hrunner, hspares.tame hm, hbears⟩
  | warn =>
    obtain ⟨i, m', hend, hfile, hrunner, htame, hbears⟩ := recordMessage_ends h hread false
    exact ⟨i, m', hend, hfile, hrunner, htame hm, hbears⟩
  | fail =>
    obtain ⟨i, m₁, hend, hfile, hrunner, htame, hbears⟩ := recordMessage_ends h hread true
    obtain ⟨m', hspares, hsame, hraised⟩ := raises_recorded (σ := σ) hbears (htame hm)
    have hloud : m₁.isLoud f = m.isLoud f := by
      unfold Machine.isLoud
      rw [hfile, truthy_of_isScalar h.typed.quiet]
    refine ⟨i, m', ?_, hspares.file.trans hfile, hsame.trans hrunner, hspares.tame (htame hm), hbears.spares hspares⟩
    unfold report
    dsimp only
    rw [bind_eq, hend, ← hloud]
    exact hraised

/-! ### What messages say -/

/-- A scalar has the same words within another text. -/
theorem formattedAt_of_isScalar {v : Value} (h : v.isScalar = true) {t : String} (ht : ∀ m, (formatted v).Gives m t m)
    (m : Machine) : (formattedAt 949 v).Gives m t m := by
  obtain ⟨u, hu⟩ := exists_formattedAt h
  have hsame : u = t := by
    have hends : (Outcome.done u, m) = (.done t, m) := (hu 947 m (service 0)).symm.trans (ht m (service 0))
    cases hends
    rfl
  exact hsame ▸ hu 946 m

/-- A message says which path its file had, where it points at, and why it was made. -/
theorem gives_printed {r : Remark} (h : m.Holds r) : (printed r.value).Gives m r.text m := by
  have hstr (t : String) : (formattedAt 949 (.str t)).Gives m t m := gives_formatted_str 947 t m
  have hwords : (formattedAt 949 r.said).Gives m r.words m := formattedAt_of_isScalar h.scalar h.words m
  have hdetail : (m.store.fault r.index).detail = .diagnostic r.diagnostic := congrArg Prod.fst h.core
  intro σ
  unfold printed writtenDepth printedAt Remark.value
  rw [(gives_store m).bind_eq, (gives_special_of_instance? rfl "__str__").bind_eq]
  dsimp only
  rw [hdetail]
  dsimp only [Remark.diagnostic, diagnosticAt]
  rw [(gives_truth_str r.path m).bind_eq]
  unfold Remark.text
  by_cases hpath : r.path = ""
  · rw [decide_eq_false (not_not.mpr hpath), if_pos hpath, if_neg Bool.false_ne_true, (hstr r.name).bind_eq, hwords.bind_eq]
    rfl
  · rw [decide_eq_true hpath, if_neg hpath, if_pos rfl]
    rw [(hstr r.path).bind_eq, (hstr r.name).bind_eq, (gives_pure _ m).bind_eq, hwords.bind_eq]
    rfl

/-- A file has failed if one of its recorded messages is fatal. -/
theorem gives_hasFailed (h : m.Bears f made) :
    (hasFailed f).Gives m (made.any fun r => r.kept && r.fatal) m := by
  have hfatal {r : Remark} (hr : m.Holds r) : (isFatal r.value).Gives m r.fatal m := by
    have hattr : (attr r.value "fatal").Gives m (.bool r.fatal) m := gives_attr_message hr.core rfl
    refine hattr.bind ?_
    have htruth := gives_truth_of_isScalar (v := .bool r.fatal) rfl m
    exact htruth
  have hany : ∀ rs : List Remark, (∀ r ∈ rs, m.Holds r) →
      (anyFatal (rs.map Remark.value)).Gives m (rs.any (·.fatal)) m := by
    intro rs hrs
    induction rs with
    | nil => exact gives_pure false m
    | cons r rs ih =>
      refine (hfatal (hrs r (.head _))).bind ?_
      rw [List.any_cons]
      cases r.fatal with
      | true => exact gives_pure true m
      | false => exact ih fun r hr => hrs r (.tail _ hr)
  obtain ⟨l, hl, -, hlist⟩ := h.messages
  have helements : (elements (m.store.file f).messages).Gives m ((made.filter (·.kept)).map Remark.value) m := by
    rw [hl, ← hlist]
    exact fun _ => rfl
  refine (gives_store m).bind (helements.bind ?_)
  rw [← List.any_filter]
  exact hany _ fun r hr => h.holds r (List.mem_filter.mp hr).1

end Work

/-! ### Histories -/

/-- What can be asked of a file: a report, a path of other parts, or to be quiet or loud. -/
inductive FileCall
  | report (how : Reporting) (reason position : Value)
  | move (filename directory extension : Value)
  | quiet (value : Value)

namespace FileCall

/-- Does what is asked of a file. -/
def perform (f : Nat) : FileCall → Work Value
  | report how reason position => Work.report how f reason position
  | move filename directory extension => do
    Work.modifyStore fun s => s.moveFile f filename directory extension
    return .file f
  | quiet value => do
    Work.setAttribute (.file f) "quiet" value
    return .null

/-- Whether a failure is reported. -/
def fails : FileCall → Bool
  | report .fail .. => true
  | _ => false

end FileCall

/-- Something that is asked of a file, and where. -/
structure Occasion where
  service : Service
  before : Machine
  call : FileCall

namespace Occasion

/-- How it ends. -/
def ending (o : Occasion) (f : Nat) : Outcome Value := (o.call.perform f o.service o.before).1

/-- The machine after it. -/
def after (o : Occasion) (f : Nat) : Machine := (o.call.perform f o.service o.before).2

/-- Whether a call is what files take: a reason and a position that can be read, parts of a path, or a scalar. -/
def Fits (o : Occasion) (f : Nat) : Prop :=
  match o.call with
  | .report _ reason position => ∃ x, Work.Readable o.service f o.before reason position x
  | .move filename directory extension =>
    filename.isPathPart = true ∧ directory.isPathPart = true ∧ extension.isPathPart = true
  | .quiet value => value.isScalar = true

/-- What comes of a call. A report makes a message of what is read then and of the path that the file has then, and ends
with it; a failure raises it where the file is loud then. No other call makes a message. -/
inductive Makes (o : Occasion) (f : Nat) : Option Remark → Prop
  | reported {how : Reporting} {reason position : Value} {x : Reading} {i : Nat}
      (hcall : o.call = .report how reason position) (hread : Work.Readable o.service f o.before reason position x)
      (hend : o.ending f = Work.endOf how (o.before.isLoud f) (.fault i)) :
      Makes o f (some (x.remark how i reason (o.before.store.file f).path))
  | moved {filename directory extension : Value} (hcall : o.call = .move filename directory extension)
      (hend : o.ending f = .done (.file f)) : Makes o f none
  | quieted {value : Value} (hcall : o.call = .quiet value) (hend : o.ending f = .done .null) : Makes o f none

variable {o : Occasion} {f : Nat} {made : List Remark}

/-- What is asked of a file is done, and leads to a file that bears one message more if one was made. -/
theorem makes_of_fits (h : o.before.Bears f made) (hm : o.before.Tame) (hfits : o.Fits f) :
    ∃ r?, o.Makes f r? ∧ (o.after f).Bears f (made ++ r?.toList) ∧ (o.after f).Tame := by
  obtain ⟨σ, m, call⟩ := o
  cases call with
  | report how reason position =>
    obtain ⟨x, hread⟩ := hfits
    obtain ⟨i, m', hend, -, -, htame, hbears⟩ := Work.report_ends h hm hread how
    have hperform : FileCall.perform f (.report how reason position) σ m =
        (Work.endOf how (m.isLoud f) (.fault i), m') := hend
    refine ⟨_, .reported rfl hread (congrArg Prod.fst hperform), ?_, ?_⟩
    · rw [after, hperform]
      exact hbears
    · rw [after, hperform]
      exact htame
  | move filename directory extension =>
    obtain ⟨hfilename, hdirectory, hextension⟩ := hfits
    have hpart {old new : Value} (hold : old.isPathPart = true) (hnew : new.isPathPart = true) :
        (if new = .null then old else new).isPathPart = true := by
      split
      · exact hold
      · exact hnew
    refine ⟨none, .moved rfl rfl, ?_, hm.plain, hm.lists⟩
    rw [Option.toList_none, List.append_nil]
    have htyped : (m.store.file f).Typed := h.typed
    exact h.updateFile rfl ⟨htyped.attrs, hpart htyped.filename hfilename, hpart htyped.directory hdirectory,
      hpart htyped.extension hextension, htyped.quiet⟩
  | quiet value =>
    have hset : (Work.setAttribute (.file f) "quiet" value).Gives m ()
        { m with store := m.store.updateFile f fun c => { c with quiet := value } } := by
      have hwritten : (Work.accessor? (.file f) "quiet" "__set__").Gives m none m :=
        Work.gives_accessor_of_isDirect rfl _ _ m
      exact hwritten.bind ((Work.gives_special_of_instance? rfl _).bind fun _ => rfl)
    have hperform : FileCall.perform f (.quiet value) σ m =
        (.done .null, { m with store := m.store.updateFile f fun c => { c with quiet := value } }) :=
      hset.bind (Work.gives_pure Value.null _) σ
    have htyped : (m.store.file f).Typed := h.typed
    refine ⟨none, .quieted rfl (congrArg Prod.fst hperform), ?_, ?_⟩
    · rw [after, hperform, Option.toList_none, List.append_nil]
      exact h.updateFile rfl ⟨htyped.attrs, htyped.filename, htyped.directory, htyped.extension, hfits⟩
    · rw [after, hperform]
      exact ⟨hm.plain, hm.lists⟩

end Occasion

/-- Calls on a file, one after the other, whatever else happens between them that leaves its diagnostics alone. -/
inductive Asked (f : Nat) : Machine → List Occasion → Machine → Prop
  | nothing (m : Machine) : Asked f m [] m
  | elsewhere {m m' m'' : Machine} {os : List Occasion} (h : m.Spares f m') (rest : Asked f m' os m'') : Asked f m os m''
  | call {o : Occasion} {m' : Machine} {os : List Occasion} (hfits : o.Fits f) (rest : Asked f (o.after f) os m') :
      Asked f o.before (o :: os) m'

/-- What a history makes is what its calls make, in order. -/
theorem Asked.makes {f : Nat} {m m' : Machine} {os : List Occasion} (h : Asked f m os m') {made : List Remark}
    (hbears : m.Bears f made) (hm : m.Tame) :
    ∃ rs, List.Forall₂ (Occasion.Makes · f) os rs ∧ m'.Bears f (made ++ rs.reduceOption) ∧ m'.Tame := by
  induction h generalizing made with
  | nothing m =>
    refine ⟨[], .nil, ?_, hm⟩
    rw [List.reduceOption_nil, List.append_nil]
    exact hbears
  | elsewhere h _ ih => exact ih (hbears.spares h) (h.tame hm)
  | @call o m' os hfits _ ih =>
    obtain ⟨r?, hmakes, hafter, htame⟩ := Occasion.makes_of_fits hbears hm hfits
    obtain ⟨rs, hrs, hend, htame'⟩ := ih hafter htame
    refine ⟨r? :: rs, .cons hmakes hrs, ?_, htame'⟩
    rw [List.append_assoc] at hend
    cases r? with
    | none => exact hend
    | some r => exact hend

/-- Among what calls make there is a fatal message if and only if one of them failed. -/
theorem any_fatal_of_makes {f : Nat} {os : List Occasion} {rs : List (Option Remark)}
    (h : List.Forall₂ (Occasion.Makes · f) os rs) :
    (rs.reduceOption.any fun r => r.kept && r.fatal) = os.any (·.call.fails) := by
  induction h with
  | nil => rfl
  | @cons o r? os rs hmakes _ ih =>
    rw [List.any_cons, ← ih]
    cases hmakes with
    | @reported how _ _ _ _ hcall =>
      rw [List.reduceOption_cons_of_some, List.any_cons, hcall]
      cases how <;> rfl
    | moved hcall =>
      rw [List.reduceOption_cons_of_none, hcall]
      exact (Bool.false_or _).symm
    | quieted hcall =>
      rw [List.reduceOption_cons_of_none, hcall]
      exact (Bool.false_or _).symm

end Treeworks
