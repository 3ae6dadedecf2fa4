import Treeworks.Proofs.Log.Records

/-! Entries of scalars, in a logging context of scalars. Writing one ends, whether it is recorded as it is or goes to the
stream, and nothing but the log is changed by it. -/
namespace Treeworks

namespace Table
variable {α : Type} {t u : Table α} {e : String × α}

theorem mem_of_mem_set {key : String} {value : α} (h : e ∈ t.set key value) : e ∈ t ∨ e = (key, value) := by
  induction t with
  | nil => exact .inr (List.mem_singleton.mp h)
  | cons x t ih =>
    unfold set at h
    split at h
    · rename_i hkey
      rcases List.mem_cons.mp h with rfl | h
      · exact .inr (hkey ▸ rfl)
      · exact .inl (.tail _ h)
    · rcases List.mem_cons.mp h with rfl | h
      · exact .inl (.head _)
      · exact (ih h).imp_left (.tail _)

theorem mem_of_mem_fill (h : e ∈ t.fill u) : e ∈ t ∨ e ∈ u := by
  unfold fill at h
  induction u generalizing t with
  | nil => exact .inl h
  | cons x u ih =>
    rw [List.foldl_cons] at h
    obtain h | h := ih h
    · split at h
      · exact .inl h
      · exact (mem_of_mem_set h).imp_right fun he => List.mem_cons.mpr (.inl he)
    · exact .inr (.tail _ h)

end Table

namespace Machine

/-- A machine in whose log something was written, and which is else as it was. -/
structure Noted (m m' : Machine) : Prop where
  store : m'.store = m.store
  cells : m'.cells = m.cells
  cell : m'.cell = m.cell
  logging : m.logging.Used m'.logging

/-- Whether entries of scalars can be written: the logging context has nothing but scalars, and filters list names. -/
structure Tame (m : Machine) : Prop where
  plain : m.scope.fields.Plain
  lists : ∀ logger c, (m.logging.chainOf logger).1 = some c → ∀ f, c.filter = some f → ∃ names, f.families.Lists names

namespace Noted
variable {a b c : Machine}

theorem refl (m : Machine) : m.Noted m := ⟨rfl, rfl, rfl, .refl _⟩

theorem trans (h : a.Noted b) (h' : b.Noted c) : a.Noted c where
  store := h'.store.trans h.store
  cells := h'.cells.trans h.cells
  cell := h'.cell.trans h.cell
  logging := h.logging.trans h'.logging

theorem scope (h : a.Noted b) : b.scope = a.scope := by
  unfold Machine.scope
  rw [h.cells, h.cell]

theorem tame (h : a.Noted b) (ha : a.Tame) : b.Tame where
  plain := h.scope ▸ ha.plain
  lists logger c hc := ha.lists logger c (h.logging.chainOf_fst logger ▸ hc)

end Noted
end Machine

namespace Work
variable {α β : Type} {σ : Service} {m m' : Machine}

/-- Whether work gives a result and at most writes to the log. -/
def Notes (σ : Service) (m : Machine) (w : Work α) : Prop := ∃ a m', w σ m = (.done a, m') ∧ m.Noted m'

theorem notes_pure (a : α) (m : Machine) : (pure a : Work α).Notes σ m := ⟨a, m, rfl, .refl m⟩

theorem notes_bind {w : Work α} {f : α → Work β} {a : α} (hw : w σ m = (.done a, m')) (h : m.Noted m')
    (hf : (f a).Notes σ m') : (w >>= f).Notes σ m := by
  obtain ⟨b, m'', hrest, hnoted⟩ := hf
  exact ⟨b, m'', by rw [bind_eq, hw]; exact hrest, h.trans hnoted⟩

theorem Notes.bind {w : Work α} {f : α → Work β} (hw : w.Notes σ m) (hf : ∀ a m', m.Noted m' → (f a).Notes σ m') :
    (w >>= f).Notes σ m := by
  obtain ⟨a, m₁, hend, hnoted⟩ := hw
  exact notes_bind hend hnoted (hf a m₁ hnoted)

theorem Gives.notes {w : Work α} {a : α} (h : w.Gives m a m) : w.Notes σ m := ⟨a, m, h σ, .refl m⟩

theorem notes_each {f : α → Work β} {l : List α} (h : ∀ a ∈ l, ∀ m', m.Noted m' → (f a).Notes σ m') :
    (each f l).Notes σ m := by
  induction l generalizing m with
  | nil => exact notes_pure [] m
  | cons a l ih =>
    refine (h a (.head _) m (.refl m)).bind fun b m₁ h₁ => ?_
    refine (ih fun a' ha' m' hm' => h a' (.tail _ ha') m' (h₁.trans hm')).bind fun bs m₂ _ => notes_pure _ m₂

/-! ### What entries show -/

theorem notes_spanName (n : Nat) (m : Machine) : (spanName n).Notes σ m := by
  unfold Notes spanName
  split
  · exact ⟨_, m, rfl, .refl m⟩
  · exact ⟨_, _, rfl, rfl, rfl, rfl, .refl _⟩

theorem notes_see {v : Value} (h : v.isScalar = true) (m : Machine) : (see v).Notes σ m := by
  have hcontent : see v σ m = observeContent 979 v σ m := by
    have hid : m.idOf? v = none := by
      unfold Machine.idOf?
      rw [if_pos h]
    unfold see seenDepth observe
    rw [machine_bind]
    dsimp only
    rw [hid]
  unfold Notes
  rw [hcontent]
  cases v with
  | spanId n => exact (notes_spanName n m).bind fun t m' _ => notes_pure _ m'
  | null | bool _ | int _ | float _ | str _ | category _ => exact ⟨_, m, rfl, .refl m⟩
  | _ => cases h

theorem notes_lineDatum {v : Value} (h : v.isScalar = true) (fuel : Nat) (m : Machine) :
    (lineDatum (fuel + 1) [] v).Notes σ m := by
  cases v with
  | spanId n => exact (notes_spanName n m).bind fun t m' _ => notes_pure _ m'
  | null | bool _ | int _ | float _ | str _ | category _ => exact ⟨_, m, rfl, .refl m⟩
  | _ => cases h

theorem notes_consoleText {v : Value} (h : v.isScalar = true) (m : Machine) : (consoleText v).Notes σ m := by
  cases v with
  | null | bool _ | int _ | float _ | str _ | category _ | spanId _ => exact ⟨_, m, rfl, .refl m⟩
  | _ => cases h

theorem notes_fieldData {f : Value → Work Datum} {fields : Table Value}
    (h : ∀ e ∈ fields, ∀ m', m.Noted m' → (f e.2).Notes σ m') : (fieldData f fields).Notes σ m := by
  refine Notes.bind (notes_each fun name _ m' hm' => ?_) fun _ m₁ h₁ => notes_each fun e he m' hm' => ?_
  · split
    · rename_i v hv
      obtain ⟨e, he, -, rfl⟩ := Table.exists_mem_of_get? hv
      exact h e he m' hm'
    · exact notes_pure _ m'
  · split
    · exact notes_pure _ m'
    · exact (h e he m' (h₁.trans hm')).bind fun d m₂ _ => notes_pure _ m₂

/-! ### Entries -/

/-- The names of fields that an entry does not take as what they are. -/
def unusualNames : List String := ["event", "self", "method_name", "exc_info", "stack_info", "stack", "exception"]

/-- Whether a field is a scalar that an entry takes as what it is. -/
def Fits (e : String × Value) : Prop := e.2.isScalar = true ∧ e.1 ∉ unusualNames

theorem get?_of_fits {fields : Table Value} (h : ∀ e ∈ fields, Fits e) {name : String} (hname : name ∈ unusualNames) :
    fields.get? name = none := by
  cases hget : fields.get? name with
  | none => rfl
  | some v =>
    obtain ⟨e, he, rfl, -⟩ := Table.exists_mem_of_get? hget
    exact absurd hname (h e he).2

theorem fits_entries {c : LogContext} (h : c.Plain) : ∀ e ∈ c.entries, Fits e := by
  intro e he
  refine ⟨h.entries e he, ?_⟩
  have hmem := (List.mem_filter.mp he).1
  simp only [List.mem_cons, List.not_mem_nil, or_false] at hmem
  rcases hmem with rfl | rfl | rfl | rfl | rfl <;> simp [unusualNames]

theorem fits_fill {t u : Table Value} (ht : ∀ e ∈ t, Fits e) (hu : ∀ e ∈ u, Fits e) : ∀ e ∈ t.fill u, Fits e :=
  fun e he => (Table.mem_of_mem_fill he).elim (ht e) (hu e)

section
variable {fields : Table Value} {method : LogMethod}

theorem notes_recordEntry (hm : m.Tame) (hmethod : method ≠ .exception) (hfields : ∀ e ∈ fields, Fits e)
    (logger event : String) : (recordEntry logger method (.str event) fields).Notes σ m := by
  let filled := fields.fill m.scope.fields.entries
  let all := if filled.has "logger" then filled else filled.set "logger" (.str logger)
  have hfilled : ∀ e ∈ filled, Fits e := fits_fill hfields (fits_entries hm.plain)
  have hall : ∀ e ∈ all, e.2.isScalar = true := by
    intro e he
    unfold all at he
    split at he
    · exact (hfilled e he).1
    · rcases Table.mem_of_mem_set he with he | rfl
      · exact (hfilled e he).1
      · rfl
  have hgiven : (if method = .exception && !fields.has "exc_info" then fields.set "exc_info" (.bool true) else fields) =
      fields := if_neg (by simp [hmethod])
  unfold recordEntry
  rw [hgiven]
  refine notes_bind (contextFields_eq hm.plain σ) (.refl m) ?_
  refine (notes_fieldData (f := see) fun e he m' _ => notes_see (hall e he) m').bind fun shown m₁ _ => ?_
  exact (notes_see (v := .str event) rfl m₁).bind fun d m₂ _ => ⟨(), _, rfl, rfl, rfl, rfl, .refl _⟩

theorem notes_consoleEntry (hfields : ∀ e ∈ fields, Fits e) (event logger : String) (m : Machine) :
    (consoleEntry event logger fields).Notes σ m := by
  have happended (name : String) (hname : name ∈ unusualNames) (m : Machine) : (appended fields name).Gives m none m := by
    unfold appended
    rw [get?_of_fits hfields hname]
    exact gives_pure _ m
  unfold consoleEntry
  refine (notes_each fun e he m' _ => ?_).bind fun texts m₁ _ => ?_
  · exact (notes_consoleText (hfields e (List.mem_filter.mp he).1).1 m').bind fun t m₂ _ => notes_pure _ m₂
  · refine (happended "stack" (by decide) m₁).notes.bind fun stack m₂ _ => ?_
    refine (happended "exception" (by decide) m₂).notes.bind fun exception m₃ _ => ?_
    split <;> exact notes_pure _ _

theorem notes_linesOf (hm : m.Tame) (hfields : ∀ e ∈ fields, Fits e)
    (format : LogFormat) (logger event : String) : (linesOf format logger method (.str event) fields).Notes σ m := by
  let own : Table Value := fields.filter fun e => !streamNames.contains e.1
  let all := own.fill m.scope.fields.entries
  have hall : ∀ e ∈ all, Fits e :=
    fits_fill (fun e he => hfields e (List.mem_filter.mp he).1) (fits_entries hm.plain)
  let rest : Table Value := all.filter fun e => e.1 ≠ "exc_info" && e.1 ≠ "stack_info"
  have hrest : ∀ e ∈ rest, Fits e := fun e he => hall e ((List.mem_filter.mp he).1)
  have hstream : streamFields fields σ m = (.done rest, m) := by
    unfold streamFields
    rw [bind_eq, contextFields_eq hm.plain]
    dsimp only
    rw [get?_of_fits hall (by decide)]
    rfl
  unfold linesOf
  refine notes_bind hstream (.refl m) ?_
  cases format with
  | console =>
    refine (Gives.notes (a := event) fun _ => rfl).bind fun _ m₁ _ => ?_
    refine (notes_consoleEntry hrest _ logger m₁).bind fun text m₂ _ => ?_
    exact notes_pure _ m₂
  | data =>
    dsimp only
    rw [if_neg (by simp)]
    refine (notes_lineDatum (v := .str event) rfl _ m).bind fun shown m₁ _ => ?_
    refine (notes_fieldData fun e he m' _ => notes_lineDatum (hrest e he).1 _ m').bind fun data m₂ _ => ?_
    split <;> exact notes_pure _ m₂

theorem notes_write (hm : m.Tame) (hmethod : method ≠ .exception) (hfields : ∀ e ∈ fields, Fits e) {chain : Option Chain}
    (hchain : ∀ c, chain = some c → ∀ f, c.filter = some f → ∃ names, f.families.Lists names) (logger event : String) :
    (write chain logger method (.str event) fields).Notes σ m := by
  have hcheck : checkFields method.name fields = pure () := by
    have hnone : ["event", "self", "method_name"].find? fields.has = none := by
      refine List.find?_eq_none.mpr fun name hname => ?_
      have hget : fields.get? name = none := get?_of_fits hfields (by
        simp only [List.mem_cons, List.not_mem_nil, or_false] at hname
        rcases hname with rfl | rfl | rfl <;> decide)
      rw [Table.has, hget]
      exact Bool.false_ne_true
    unfold checkFields
    rw [hnone]
  unfold write
  rw [hcheck]
  refine (notes_pure () m).bind fun _ m₁ h₁ => ?_
  have hm₁ : m₁.Tame := h₁.tame hm
  cases chain with
  | none => exact notes_recordEntry hm₁ hmethod hfields logger event
  | some c =>
    have hown : ((fields.get? "processor").getD .null).isScalar = true := by
      cases hget : fields.get? "processor" with
      | none => rfl
      | some v =>
        obtain ⟨e, he, -, rfl⟩ := Table.exists_mem_of_get? hget
        exact (hfields e he).1
    -- A filter looks for texts among texts, so that nobody is asked whether they are equal.
    have hpasses : (passes c logger method ((fields.get? "processor").getD .null)).Notes σ m₁ := by
      obtain ⟨filter, format⟩ := c
      cases filter with
      | none => exact ⟨_, m₁, rfl, .refl m₁⟩
      | some f =>
        obtain ⟨names, hnames⟩ := hchain _ rfl f rfl
        have hcontext : m₁.scope.fields.processor.isScalar = true := hm₁.plain _ (.head _)
        have hfamily : (m₁.familyFor ((fields.get? "processor").getD .null)).isScalar = true := by
          unfold Machine.familyFor
          split
          · exact hown
          · exact hcontext
        exact (gives_passes ⟨f.families, rfl, hnames⟩ logger method hown hfamily).notes
    refine hpasses.bind fun passed m₂ h₂ => ?_
    split
    · refine (notes_linesOf (h₂.tame hm₁) hfields _ _ event).bind fun lines m₃ _ => ?_
      have htaken (taken : Bool) :
          (if taken then modify fun m => { m with lines := lines.reverse ++ m.lines } else pure () : Work Unit).Notes
            σ m₃ := by
        cases taken
        · exact notes_pure () m₃
        · exact ⟨(), _, rfl, rfl, rfl, rfl, .refl _⟩
      exact htaken _
    · exact notes_pure _ m₂

/-- A logger's entry of scalars is written, and nothing else happens. -/
theorem notes_log (hm : m.Tame) (hmethod : method ≠ .exception) (hfields : ∀ e ∈ fields, Fits e)
    (logger event : String) : (log logger method event fields).Notes σ m := by
  let m₁ : Machine := { m with logging := (m.logging.chainOf logger).2 }
  have h₁ : m.Noted m₁ := ⟨rfl, rfl, rfl, .chainOf m.logging logger⟩
  have hlists c hc := hm.lists logger c hc
  obtain ⟨_, m', hwrite, hnoted⟩ := notes_write (σ := σ) (h₁.tame hm) hmethod hfields hlists logger event
  exact ⟨(), m', hwrite, h₁.trans hnoted⟩

end

end Work
end Treeworks
