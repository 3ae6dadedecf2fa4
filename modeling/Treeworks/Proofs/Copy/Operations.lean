import Treeworks.Proofs.Copy.Guard
import Treeworks.Proofs.Report.Reading
import Treeworks.Proofs.Slot.Stages

/-! What can be done with a file: its text and its path are changed, diagnostics are reported, bags are made and their
contents replaced at any depth, and processors park trees there, run over them and compile them. Whoever answers requests
meanwhile is taken to work on this file and to leave another alone; then all of it leaves the other file alone. -/
namespace Treeworks

/-- Nothing is asked of what becomes of the trees of a file. -/
def Custom.free (f : Nat) (names : Nat → Option String) : Custom f names :=
  ⟨fun _ _ => True, fun _ _ => trivial, fun _ _ => trivial⟩

/-- What everybody keeps to who works on a file for some processors and leaves another file alone. -/
def Discipline.working (made : Value → List Value) (names : Nat → Option String) (f x : Nat) : Discipline :=
  (Custom.free x names).discipline.both (.guarding made f x)

/-- What becomes of two files when one of them, as it is typed, is worked on and the other is left alone. -/
structure Works (made : Value → List Value) (names : Nat → Option String) (f x : Nat) (m m' : Machine) : Prop where
  abides : Abides x names m m'
  respects : Respects made f x m m'

instance {made : Value → List Value} {names : Nat → Option String} {f x : Nat} :
    (Discipline.working made names f x).Knows x names := ⟨fun h => h.1⟩

section
variable {made : Value → List Value} {names : Nat → Option String} {f x : Nat} {m m' : Machine}

theorem Discipline.holds_working : (Discipline.working made names f x).holds m m' ↔
    (Proper x names m → Guarded made f x m → Works made names f x m m') := by
  constructor
  · intro h hp hg
    obtain ⟨hc, he⟩ := h hp hg
    exact ⟨(hc hp).1, he hg⟩
  · intro h hp hg
    obtain ⟨ha, hr⟩ := h hp hg
    exact ⟨fun _ => ⟨ha, trivial⟩, fun _ => hr⟩

theorem Works.trans {m'' : Machine} (h : Works made names f x m m') (h' : Works made names f x m' m'') :
    Works made names f x m m'' := ⟨h.abides.trans h'.abides, h.respects.trans h'.respects⟩

end

/-- A file with another value for an attribute: one of its parts, or one that it was given besides. -/
def Carrier.assign (c : Carrier) (name : String) (v : Value) : Carrier :=
  (Store.setFilePart? c name v).getD { c with attrs := c.attrs.set name v }

/-! ### Changes of one object -/

theorem getD_modify_of_ne {α : Type} {xs : Array α} {i j : Nat} (h : i ≠ j) (g : α → α) (d : α) :
    (xs.modify i g).getD j d = xs.getD j d := by
  simp only [Array.getD_eq_getD_getElem?, Array.getElem?_modify, if_neg h]

theorem Entries.mem_set {t : Entries} {key value : Value} {e : Value × Value} (h : e ∈ t.set key value) :
    e ∈ t ∨ e.2 = value := by
  induction t with
  | nil =>
    rw [List.mem_singleton.mp h]
    exact .inr rfl
  | cons e' t ih =>
    obtain ⟨k, v⟩ := e'
    unfold set at h
    split at h
    · rcases List.mem_cons.mp h with rfl | h
      · exact .inr rfl
      · exact .inl (List.mem_cons_of_mem _ h)
    · rcases List.mem_cons.mp h with rfl | h
      · exact .inl (List.mem_cons_self ..)
      · exact (ih h).imp_left (List.mem_cons_of_mem _)

namespace Store
variable {made : Value → List Value} {s s' : Store} {v w : Value} {f : Nat}

theorem file_updateFile_self {i : Nat} (hi : i < s.files.size) (g : Carrier → Carrier) :
    (s.updateFile i g).file i = g (s.file i) := by
  simp [file, updateFile, Array.getD_eq_getD_getElem?, Array.getElem_modify, hi]

/-- What becomes of a store when one object comes to hold something else, whatever that is. -/
inductive Alters (s : Store) : Value → Store → Prop
  | dict (i : Nat) (g : Entries → Entries) : s.Alters (.dict i) (s.updateDict i g)
  | list (i : Nat) (g : Array Value → Array Value) : s.Alters (.list i) (s.updateList i g)
  | set (i : Nat) (g : Elements → Elements) : s.Alters (.set i) { s with sets := s.sets.modify i g }
  | file (i : Nat) (g : Carrier → Carrier) : s.Alters (.file i) (s.updateFile i g)
  | worker (i : Nat) (g : Instance → Instance) : s.Alters (.worker i) { s with workers := s.workers.modify i g }
  | processor (i : Nat) (g : Instance → Instance) :
      s.Alters (.processor i) { s with processors := s.processors.modify i g }

namespace Alters

/-- All other objects stay the same. -/
theorem sameAt (h : s.Alters v s') (hne : w ≠ v) : s.SameAt s' w := by
  cases h with
  | dict i g =>
    cases w with
    | dict j => exact getD_modify_of_ne (fun hij => hne (congrArg _ hij.symm)) _ _
    | _ => rfl
  | list i g =>
    cases w with
    | list j => exact congrArg Array.toList (getD_modify_of_ne (fun hij => hne (congrArg _ hij.symm)) _ _)
    | _ => rfl
  | set i g =>
    cases w with
    | set j => exact getD_modify_of_ne (fun hij => hne (congrArg _ hij.symm)) _ _
    | _ => rfl
  | file i g =>
    cases w with
    | file j => exact getD_modify_of_ne (fun hij => hne (congrArg _ hij.symm)) _ _
    | _ => rfl
  | worker i g =>
    cases w with
    | worker j => exact congrArg some (getD_modify_of_ne (fun hij => hne (congrArg _ hij.symm)) _ _)
    | _ => rfl
  | processor i g =>
    cases w with
    | processor j => exact congrArg some (getD_modify_of_ne (fun hij => hne (congrArg _ hij.symm)) _ _)
    | _ => rfl

theorem there (h : s.Alters v s') : s'.There w ↔ s.There w := by
  cases h <;> cases w <;> simp [There, updateDict, updateList, updateFile]

theorem isMutable (h : s.Alters v s') : v.isMutable = true := by cases h <;> rfl

theorem sizes (h : s.Alters v s') : s'.dicts.size = s.dicts.size ∧ s'.files.size = s.files.size := by
  cases h <;> simp [updateDict, updateList, updateFile]

theorem untouched (h : s.Alters v s') : s'.types = s.types ∧ s'.tokens = s.tokens := by cases h <;> exact ⟨rfl, rfl⟩

end Alters
end Store

section
variable {made : Value → List Value} {names : Nat → Option String} {f x : Nat} {m : Machine} {s : Store} {v : Value}

/-- Anything that is no part of the other file may come to hold something else, apart from what the file that is worked on
is known by, and from the processors. -/
theorem works_altered (hp : Proper x names m) (hg : Guarded made f x m) (h : m.store.Alters v s)
    (hoff : ¬ m.store.Side made f v) (hfile : v ≠ .file x) (hroot : v ≠ (m.store.file x).bags)
    (hprocessors : ∀ {p name}, names p = some name → v ≠ .processor p ∧ v ≠ .dict (m.store.processor p).fields) :
    Works made names f x m { m with store := s } := by
  have hsameFile : s.file x = m.store.file x := h.sameAt (w := .file x) hfile.symm
  have hsameRoot (d : Nat) (hd : (m.store.file x).bags = .dict d) : s.dict d = m.store.dict d :=
    h.sameAt (w := .dict d) fun e => hroot (e.symm.trans hd.symm)
  obtain ⟨htypes, htokens⟩ := h.untouched
  have hplain : Machine.Plain { m with store := s } := hp.plain.of_eq rfl htokens
  have hprocessor {p : Nat} {name : String} (hname : names p = some name) :
      s.processor p = m.store.processor p ∧
        s.dict (m.store.processor p).fields = m.store.dict (m.store.processor p).fields := by
    obtain ⟨hne, hfields⟩ := hprocessors hname
    exact ⟨Option.some.inj (h.sameAt (w := .processor p) hne.symm), h.sameAt (w := .dict _) hfields.symm⟩
  have htype (i : Nat) : (m.store.type i).Alike (s.type i) := by
    have hsame : s.type i = m.store.type i := congrArg (fun t => t.getD i default) htypes
    rw [hsame]
    exact ⟨rfl, rfl, fun _ _ => rfl⟩
  constructor
  · have hshelved := hp.shelved
    apply Abides.of_root hp
    · exact Nat.le_of_eq h.sizes.2.symm
    · exact hsameFile ▸ hshelved.attrs
    · exact hsameFile ▸ hshelved.filename
    · exact hsameFile ▸ hshelved.directory
    · exact hsameFile ▸ hshelved.extension
    · exact congrArg _ hsameFile
    · exact hsameRoot
    · exact Nat.le_of_eq h.sizes.1.symm
    · exact htype
    · exact hprocessor
    · exact hplain
  · exact hg.respects_of_same hplain (fun w => h.there.mpr) (fun w hw => h.sameAt fun e => hoff (e ▸ hw)) hsameFile hsameRoot

/-- A file may get another text and another path; it keeps its list of diagnostics and its bags. -/
theorem works_updateFile (hp : Proper x names m) (hg : Guarded made f x m) {g : Carrier → Carrier}
    (hkept : (g (m.store.file x)).messages = (m.store.file x).messages ∧
      (g (m.store.file x)).bags = (m.store.file x).bags ∧ (g (m.store.file x)).attrs = [])
    (hpath : (g (m.store.file x)).filename.isPathPart = true ∧ (g (m.store.file x)).directory.isPathPart = true ∧
      (g (m.store.file x)).extension.isPathPart = true) :
    Works made names f x m { m with store := m.store.updateFile x g } := by
  obtain ⟨hmessages, hbags, hattrs⟩ := hkept
  obtain ⟨hfilename, hdirectory, hextension⟩ := hpath
  have hfile : (m.store.updateFile x g).file x = g (m.store.file x) := Store.file_updateFile_self hg.file_lt g
  have halters : m.store.Alters (.file x) (m.store.updateFile x g) := .file x g
  have hplain : Machine.Plain { m with store := m.store.updateFile x g } := hp.plain.of_eq rfl rfl
  constructor
  · apply Abides.of_root hp
    · exact Nat.le_of_eq halters.sizes.2.symm
    · exact (congrArg Carrier.attrs hfile).trans hattrs
    · exact (congrArg (fun c => c.filename.isPathPart) hfile).trans hfilename
    · exact (congrArg (fun c => c.directory.isPathPart) hfile).trans hdirectory
    · exact (congrArg (fun c => c.extension.isPathPart) hfile).trans hextension
    · exact (congrArg Carrier.bags hfile).trans hbags
    · exact fun _ _ => rfl
    · exact Nat.le_refl _
    · exact fun _ => ⟨rfl, rfl, fun _ _ => rfl⟩
    · exact fun _ => ⟨rfl, rfl⟩
    · exact hplain
  · obtain ⟨d, hd, -, -, hin⟩ := hg.bags
    apply hg.respects hplain
    · exact fun w => halters.there.mpr
    · exact fun w hw => halters.sameAt fun e => hg.file (e ▸ hw)
    · exact (congrArg Carrier.messages hfile).trans hmessages
    · exact (congrArg Carrier.bags hfile).trans hbags
    · intro d' hd' e he
      obtain rfl : d' = d := Value.dict.inj (hd'.symm.trans hd)
      exact hin e he

end

namespace Work
variable {α : Type} {made : Value → List Value} {names : Nat → Option String} {f x p : Nat} {name : String} {m m' : Machine}

/-! ### Text and path -/

/-- An attribute of a file is stored without a request. -/
theorem gives_setAttribute_file (x : Nat) (name : String) (v : Value) (m : Machine) :
    (setAttribute (.file x) name v).Gives m () { m with store := m.store.updateFile x fun c => c.assign name v } := by
  have hwritten : (accessor? (.file x) name "__set__").Gives m none m := gives_accessor_of_isDirect rfl _ _ m
  refine hwritten.bind ((gives_special_of_instance? rfl _).bind fun σ => ?_)
  rfl

/-- A file may be assigned a text, and whether it is quiet. -/
theorem works_assign (hp : Proper x names m) (hg : Guarded made f x m) (hname : name = "contents" ∨ name = "quiet")
    (v : Value) (σ : Service) : Works made names f x m (setAttribute (.file x) name v σ m).2 := by
  rw [gives_setAttribute_file x name v m σ]
  have hpath := And.intro hp.shelved.filename (And.intro hp.shelved.directory hp.shelved.extension)
  rcases hname with rfl | rfl
  · exact works_updateFile hp hg ⟨rfl, rfl, hp.shelved.attrs⟩ hpath
  · exact works_updateFile hp hg ⟨rfl, rfl, hp.shelved.attrs⟩ hpath

/-- A file may be moved. -/
theorem works_move (hp : Proper x names m) (hg : Guarded made f x m) {filename directory extension : Value}
    (hfilename : filename.isPathPart = true) (hdirectory : directory.isPathPart = true)
    (hextension : extension.isPathPart = true) (σ : Service) :
    Works made names f x m (modifyStore (fun s => s.moveFile x filename directory extension) σ m).2 := by
  apply works_updateFile hp hg ⟨rfl, rfl, hp.shelved.attrs⟩
  refine ⟨?_, ?_, ?_⟩
  · show (if _ then _ else _ : Value).isPathPart = true
    split
    · exact hp.shelved.filename
    · exact hfilename
  · show (if _ then _ else _ : Value).isPathPart = true
    split
    · exact hp.shelved.directory
    · exact hdirectory
  · show (if _ then _ else _ : Value).isPathPart = true
    split
    · exact hp.shelved.extension
    · exact hextension

/-! ### Diagnostics -/

/-- Whether a diagnostic is fatal is stored on it, and on nothing else. -/
theorem keeps_setFatal {D : Discipline} (i : Nat) (v : Value) : (setAttribute (.fault i) "fatal" v).Keeps D := by
  intro σ hσ m
  have hwritten : (accessor? (.fault i) "fatal" "__set__").Gives m none m := gives_accessor_of_isDirect rfl _ _ m
  have heq : setAttribute (.fault i) "fatal" v σ m =
      (perhaps fun s => do return ((), ← s.setAttr (.fault i) "fatal" v) : Work Unit) σ m := by
    show (accessor? (.fault i) "fatal" "__set__" >>= _) σ m = _
    rw [hwritten.bind_eq]
    exact (gives_special_of_instance? rfl _).bind_eq _ σ
  rw [heq]
  unfold perhaps Store.setAttr Store.setFaultAttr
  dsimp only
  cases Store.withFaultAttr (m.store.fault i) "fatal" v with
  | ok x => exact D.aside { Aside.refl m with }
  | error failure => exact keeps_fail failure σ hσ m

theorem yields_newDiagnostic (reason position file fatal : Value) :
    (newDiagnostic reason position file fatal).Yields fun v => ∃ i, v = .fault i := by
  have hmade (d : Diagnostic) (said : Value) :
      (make fun s => s.addFault (.diagnostic d) [said] .null).Yields fun v => ∃ i, v = .fault i := by
    intro σ m v m' h
    cases h
    exact ⟨_, rfl⟩
  unfold newDiagnostic
  split
  · exact yields_bind fun _ => yields_bind fun _ => yields_bind fun _ => yields_bind fun _ => hmade _ _
  · exact yields_bind fun _ => yields_bind fun _ => yields_bind fun _ => hmade _ _

/-- A diagnostic comes to the end of the file's list, which is no part of the other file. -/
theorem keeps_recorded {g : Unit → Work α} (message : Value)
    (hg : ∀ u, (g u).Keeps (.working made names f x)) :
    (do append (← query (·.file x)).messages message; g ()).Keeps (.working made names f x) := by
  have hpush : (do append (← query (·.file x)).messages message).Keeps (.working made names f x) := by
    intro σ _ m
    refine Discipline.holds_working.mpr fun hp hguard => ?_
    obtain ⟨l, hl, hoff⟩ := hguard.messages
    have hgives : (do append (← query (·.file x)).messages message).Gives m ()
        { m with store := m.store.updateList l fun items => items.push message } := by
      refine (gives_query _ m).bind ?_
      rw [hl]
      exact fun _ => rfl
    rw [hgives σ]
    obtain ⟨d, hd, -⟩ := hguard.bags
    apply works_altered hp hguard (.list l _) hoff
    · exact fun e => Value.noConfusion e
    · rw [hd]
      exact fun e => Value.noConfusion e
    · exact fun _ => ⟨fun e => Value.noConfusion e, fun e => Value.noConfusion e⟩
  intro σ hσ m
  have hboth := keeps_bind hpush hg σ hσ m
  rwa [bind_assoc] at hboth

/-- What stands in place of a method of a file is asked for; a file as it is typed has nothing there. -/
theorem overridden_eq (h : m.store.Shelved x) (hname : Table.get? (Store.carrierAttrs (m.store.file x)) name = none)
    (hclass : name ≠ "__class__") (args : List Value) (usual : Work Value) (σ : Service) :
    overridden (.file x) name args usual σ m = usual σ m := by
  unfold overridden
  rw [(gives_query _ m).bind_eq, attr?_of_shelved h hname hclass]

theorem keeps_recordMessage (reason position : Value) (fatal : Bool) :
    (recordMessage x reason position fatal).Keeps (.working made names f x) := by
  intro σ hσ m
  refine Discipline.of_proper _ fun hproper => ?_
  have hp : Proper x names m := Discipline.Knows.proper hproper
  let made : Work Value := do newDiagnostic reason position (← filePath x) (.bool false)
  have hmade : newMessage x reason position σ m = made σ m := overridden_eq hp.shelved rfl (by decide) _ _ σ
  have heq : recordMessage x reason position fatal σ m = (do
      let message ← made
      setAttribute message "fatal" (.bool fatal)
      append (← query (·.file x)).messages message
      return message : Work Value) σ m := by
    unfold recordMessage
    rw [bind_eq, bind_eq, hmade]
  rw [heq]
  refine keeps_bind_of_yields (P := fun v => ∃ i, v = .fault i) ?_ ?_ ?_ σ hσ m
  · exact keeps_bind (keeps_filePath x) fun _ => keeps_newDiagnostic _ _ _ _
  · exact yields_bind fun _ => yields_newDiagnostic _ _ _ _
  · rintro _ ⟨i, rfl⟩
    exact keeps_bind (keeps_setFatal i _) fun _ => keeps_recorded _ fun _ => keeps_pure _

/-- Reports against a file leave the other file alone, though the two may have diagnostics in common. -/
theorem keeps_report (how : Reporting) (reason position : Value) :
    (report how x reason position).Keeps (.working made names f x) := by
  cases how with
  | message => exact keeps_newMessage _ _ _
  | warn => exact keeps_recordMessage _ _ _
  | fail =>
    refine keeps_bind (keeps_recordMessage _ _ _) fun message => ?_
    refine keeps_bind (keeps_attr _ _) fun file => keeps_bind (keeps_trueOr _ _) fun path => ?_
    refine keeps_bind (keeps_attr _ _) fun said => keeps_bind (keeps_attr _ _) fun place => ?_
    refine keeps_bind (keeps_log _ _ _ _) fun _ => keeps_bind (keeps_query _) fun c => ?_
    refine keeps_bind (keeps_truth _) fun quiet => ?_
    split
    · exact keeps_pure _
    · exact keeps_raiseValue _

/-! ### Bags -/

/-- What ends without a request keeps to a discipline if it does so whoever answers requests. -/
theorem Gives.holds {D : Discipline} {w : Work α} {a : α} (h : w.Gives m a m') (hw : D.holds m (w Service.idle m).2) :
    D.holds m m' := by
  rwa [h Service.idle] at hw

theorem holds_idle (D : Discipline) (r : Request) (m : Machine) : D.holds m (Service.idle r m).2 := D.refl m

/-- The bag of a name is no part of the other file: it was a bag of this one, or it is new. -/
theorem respects_bagOf (hp : m.store.Shelved x) (hg : Guarded made f x m) (name : String) :
    Respects made f x m (bagOf x (.str name) Service.idle m).2 := by
  obtain ⟨d, hd, hlt, hoff, hin⟩ := hg.bags
  cases hfound : (m.store.dict d).named? name with
  | some v =>
    rw [gives_bagOf_found hp hd hfound]
    exact hg.of_aside (Aside.addDict m [])
  | none =>
    rw [gives_bagOf_new hp hd hfound]
    let m₁ : Machine := { m with store := (m.store.addDict []).2 }
    have hadded : Respects made f x m m₁ := hg.of_aside (Aside.addDict m [])
    have hnew : ¬ m₁.store.Side made f (.dict m.store.dicts.size) :=
      fun hside => Nat.lt_irrefl _ (hg.there (.dict _) (hadded.same.side.mp hside))
    have halters : m₁.store.Alters (.dict d) (m.bagged d name).store := .dict d _
    refine hadded.trans (hadded.guarded.respects (hg.plain.of_eq rfl rfl) ?_ ?_ rfl rfl ?_)
    · exact fun w => halters.there.mpr
    · exact fun w hw => halters.sameAt fun e => hoff (hadded.same.side.mp (e ▸ hw))
    · intro d' hd' e he
      obtain rfl : d' = d := Value.dict.inj (hd'.symm.trans hd)
      have hdict : (m.bagged d' name).store.dict d' = (m₁.store.dict d').set (.str name) (.dict m.store.dicts.size) := by
        unfold Machine.bagged
        rw [Store.dict_updateDict, if_pos ⟨rfl, Nat.lt_of_lt_of_le hlt (Aside.addDict m []).dicts.size⟩]
      rw [hdict] at he
      have hold : m₁.store.dict d' = m.store.dict d' := (Aside.addDict m []).dicts.same d' hlt []
      rcases Entries.mem_set he with he | he
      · rw [hold] at he
        exact (hin e he).congr hadded.same
      · rw [he]
        exact fun _ => hnew

/-- What is done with the bag of a name leaves the other file alone if it writes to that bag at most. -/
theorem respects_bag (hp : m.store.Shelved x) (hg : Guarded made f x m) (name : String) {w : Value → Work α}
    (hw : ∀ b, (w (.dict b)).KeepsWith (.guarding made f x) (.dict b)) :
    Respects made f x m ((bagOf x (.str name) >>= w) Service.idle m).2 := by
  obtain ⟨b, m₁, hbag, hfound, hbeside, -⟩ := gives_bagOf hp name
  have hfirst : Respects made f x m m₁ := by
    have hrespects := respects_bagOf hp hg name
    rwa [hbag] at hrespects
  have hclear : IsClear made f x m₁ (.dict b) := by
    obtain ⟨d, hd, -, -, hin⟩ := hfirst.guarded.bags
    obtain ⟨e, he, hvalue⟩ := Entries.exists_mem_of_named? (Store.named?_of_bag? hd hfound)
    refine ⟨hfirst.guarded, hbeside.shelved.lt_of_onShelf (.inr ⟨name, hfound⟩), fun hside => ?_, fun hroot => ?_⟩
    · have hoff := hin e he
      rw [hvalue] at hoff
      exact hoff rfl hside
    · exact hbeside.shelved.bag_ne hroot hfound rfl
  rw [hbag.bind_eq]
  exact hfirst.trans (hw b Service.idle (holds_idle _) m₁ hclear hfirst.guarded)

/-- A tree is put into a bag. -/
theorem keepsWith_setTree {D : Discipline} (b : Nat) (tree : Value) :
    (setItem (.dict b) (.str "tree") tree).KeepsWith D (.dict b) := keepsWith_setEntry b _ tree

/-- The search for a tree writes to the bag of a name at most. -/
theorem respects_resolve (hp : m.store.Shelved x) (hg : Guarded made f x m) (name : String) (given : Value) :
    Respects made f x m (resolveTree (.str name) given x Service.idle m).2 := by
  apply respects_bag hp hg name
  intro b
  refine keepsWith_bind (keeps_getEntry _ _) fun parked => ?_
  dsimp only
  split
  · refine (keeps_bind (keeps_filePath? x) fun path => keeps_bind (keeps_make fun m => ?_) fun context => ?_).with
    · exact Discipline.aside _ ((Aside.addDict m []).trans
        { Aside.addDict { m with store := (m.store.addDict []).2 } _ with })
    · exact keeps_raiseEngine _ _ _ _
  · split
    · exact keepsWith_seq (keepsWith_setTree b _) fun _ => (keeps_pure _).with
    · exact (keeps_pure _).with

/-! ### Processors -/

section
variable {σ : Service} (hσ : ∀ r m, (Discipline.working made names f x).holds m (σ r m).2)
include hσ

/-- Calls of `run` and `stringify` park the tree that they are given, and leave the other file alone. -/
theorem works_call (hp : Proper x names m) (hg : Guarded made f x m) (hname : names p = some name) {method : String}
    (hmethod : method = "run" ∨ method = "stringify") {args : List Value} (hargs : args.length ≤ 3) {given : Value}
    (hgiven : m.store.given? x method args = some given) :
    Works made names f x m (processorMethod method (.processor p) args σ m).2 := by
  have hresolve := respects_resolve hp.shelved hg name given
  rw [call_eq hp hname hmethod hargs hgiven]
  by_cases hchosen : chosenTree given (m.trees x name) = .null
  · obtain ⟨e, m', hraises, -, hbeside, -⟩ := raises_resolve hp.shelved hchosen
    rw [hraises Service.idle] at hresolve
    rw [bind_eq, hraises σ]
    exact ⟨.of_beside hp hbeside, hresolve⟩
  · obtain ⟨m', hgives, hbeside, -⟩ := gives_resolve hp.shelved hchosen
    rw [hgives Service.idle] at hresolve
    have hfirst : Works made names f x m m' := ⟨.of_beside hp hbeside, hresolve⟩
    have hrest := keeps_goesOn hname method (chosenTree given (m.trees x name)) (m.store.placed method args).2.2 σ hσ m'
    rw [hgives.bind_eq]
    exact hfirst.trans (Discipline.holds_working.mp hrest hfirst.abides.proper hfirst.respects.guarded)

end

/-- The end of a parse parks its tree, and leaves the other file alone. -/
theorem keeps_endOfParse (hname : names p = some name) (step : OpenStep) (arrived : Except Value Value) :
    (finishParse (.processor p) x step arrived).Keeps (.working made names f x) := by
  refine keeps_bind (keeps_closeStep step arrived) fun tree => ?_
  intro σ _ m
  refine Discipline.holds_working.mpr fun hp hg => ?_
  obtain ⟨m', hpark, hbeside, -⟩ := gives_park hp.shelved name tree
  have hrespects := respects_bag (w := fun bag => setItem bag (.str "tree") tree) hp.shelved hg name fun b =>
    keepsWith_setTree b tree
  rw [hpark Service.idle] at hrespects
  rw [(gives_name (hp.named hname)).bind_eq, ← bind_assoc, hpark.bind_eq]
  exact ⟨.of_beside hp hbeside, hrespects⟩

end Work
end Treeworks
