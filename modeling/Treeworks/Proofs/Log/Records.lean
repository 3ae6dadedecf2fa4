import Treeworks.Proofs.Log.Families
import Treeworks.Proofs.Log.Scopes

/-! Entries that are recorded as they are. Such an entry has the fields that it was given, and those of the logging
context that it was not given. What scalars are shown as is known, and stays so as more is shown. -/
namespace Treeworks

namespace Grows
variable {α : Type} {xs ys : Array α}

/-- What came later may change. -/
theorem modify (h : Grows xs ys) {i : Nat} (hi : xs.size ≤ i) (f : α → α) : Grows xs (ys.modify i f) where
  size := by simpa using h.size
  same j hj d := by
    have hne : i ≠ j := Nat.ne_of_gt (Nat.lt_of_lt_of_le hj hi)
    rw [← h.same j hj d]
    simp [Array.getD_eq_getD_getElem?, Array.getElem?_modify, hne]

end Grows

namespace Table
variable {α : Type}

theorem forall_set {P : α → Prop} {t : Table α} (ht : ∀ e ∈ t, P e.2) (key : String) {value : α} (hvalue : P value) :
    ∀ e ∈ t.set key value, P e.2 := by
  induction t with
  | nil =>
    intro e he
    obtain rfl := List.mem_singleton.mp he
    exact hvalue
  | cons e t ih =>
    have htail := ih fun e' he' => ht e' (.tail _ he')
    intro e' he'
    unfold set at he'
    split at he'
    · rcases List.mem_cons.mp he' with rfl | he'
      · exact hvalue
      · exact ht e' (.tail _ he')
    · rcases List.mem_cons.mp he' with rfl | he'
      · exact ht _ (.head _)
      · exact htail e' he'

theorem forall_fill {P : α → Prop} {t u : Table α} (ht : ∀ e ∈ t, P e.2) (hu : ∀ e ∈ u, P e.2) :
    ∀ e ∈ t.fill u, P e.2 := by
  unfold fill
  induction u generalizing t with
  | nil => exact ht
  | cons e u ih =>
    have hrest := fun e' he' => hu e' (.tail _ he')
    rw [List.foldl_cons]
    split
    · exact ih ht hrest
    · exact ih (forall_set ht e.1 (hu e (.head _))) hrest

theorem get?_filter_cons (p : String × α → Bool) (k : String) (v : α) (t : Table α) (key : String) :
    get? (List.filter p ((k, v) :: t)) key = if p (k, v) ∧ k = key then some v else get? (t.filter p) key := by
  cases hp : p (k, v) <;> simp [hp, get?]

end Table

/-- A value that is there, unless it is null. -/
def Value.present (v : Value) : Option Value := if v = .null then none else some v

theorem Value.isScalar_of_mem_present {v : Value} (h : v.isScalar = true) : ∀ w ∈ v.present, w.isScalar = true := by
  intro w hw
  unfold present at hw
  split at hw
  · cases hw
  · obtain rfl := Option.some.inj hw
    exact h

/-- The fields of a context under their names. -/
theorem LogContext.get?_entries (c : LogContext) {name : String} (h : name ∈ fieldNames) :
    Table.get? c.entries name = (c.field name).present := by
  unfold entries
  simp only [fieldNames, List.mem_cons, List.not_mem_nil, or_false] at h
  rcases h with rfl | rfl | rfl | rfl | rfl <;>
    simp [Table.get?_filter_cons, field, Value.present, Table.get?]

theorem LogContext.Plain.present {c : LogContext} (h : c.Plain) {name : String} (hname : name ∈ fieldNames) :
    ∀ v ∈ (c.field name).present, v.isScalar = true := by
  intro v hv
  obtain ⟨e, he, -, rfl⟩ := Table.exists_mem_of_get? ((c.get?_entries hname).trans hv)
  exact h.entries e he

/-- The field of an entry under a name. -/
def Datum.field? (d : Datum) (name : String) : Option Datum :=
  match d with
  | .obj fields => Table.get? fields name
  | _ => none

/-! ### Scalars -/

/-- The name of a span id among those that were named so far. -/
def spanText? (names : List Nat) (n : Nat) : Option String :=
  (names.findIdx? (· = n)).map fun i => "s" ++ toString (i + 1)

/-- Different span ids have different names. -/
theorem spanText?_inj {names : List Nat} {n k : Nat} {t : String} (hn : spanText? names n = some t)
    (hk : spanText? names k = some t) : n = k := by
  simp only [spanText?, Option.map_eq_some_iff] at hn hk
  obtain ⟨i, hi, rfl⟩ := hn
  obtain ⟨j, hj, htext⟩ := hk
  have hdigits : Nat.toDigits 10 (j + 1) = Nat.toDigits 10 (i + 1) := by
    have hlists := congrArg String.toList htext
    simpa only [String.toList_append, List.append_cancel_left_eq, Nat.toString_eq_repr, Nat.toList_repr] using hlists
  have hnumbers := congrArg (Nat.ofDigitChars 10 · 0) hdigits
  simp only [Nat.ofDigitChars_ten_toDigits] at hnumbers
  obtain rfl : j = i := Nat.succ.inj hnumbers
  obtain ⟨_, hin, -⟩ := List.findIdx?_eq_some_iff_getElem.mp hi
  obtain ⟨_, hjk, -⟩ := List.findIdx?_eq_some_iff_getElem.mp hj
  exact (of_decide_eq_true hin).symm.trans (of_decide_eq_true hjk)

/-- A span id that has a name keeps it. -/
theorem spanText?_of_prefix {names names' : List Nat} (h : names <+: names') {n : Nat} {t : String}
    (hn : spanText? names n = some t) : spanText? names' n = some t := by
  obtain ⟨more, rfl⟩ := h
  simp only [spanText?, Option.map_eq_some_iff] at hn ⊢
  obtain ⟨i, hi, htext⟩ := hn
  exact ⟨i, by simp [List.findIdx?_append, hi], htext⟩

/-- Whether a scalar is shown as a datum while some span ids have names. -/
def Value.ShownAs (names : List Nat) (v : Value) (d : Datum) : Prop :=
  match v with
  | .null => d = .null
  | .bool b => d = .bool b
  | .int n => d = .int n
  | .float x => d = .float x
  | .str t => d = .str t
  | .category c => d = .str c.name
  | .spanId n => ∃ t, spanText? names n = some t ∧ d = .str t
  | _ => False

namespace Value.ShownAs
variable {names names' : List Nat} {v : Value} {d d' : Datum}

theorem mono (h : names <+: names') (hd : v.ShownAs names d) : v.ShownAs names' d := by
  cases v with
  | spanId n =>
    obtain ⟨t, ht, hd⟩ := hd
    exact ⟨t, spanText?_of_prefix h ht, hd⟩
  | _ => exact hd

theorem unique (h : v.ShownAs names d) (h' : v.ShownAs names d') : d = d' := by
  cases v with
  | spanId n =>
    obtain ⟨t, ht, rfl⟩ := h
    obtain ⟨t', ht', rfl⟩ := h'
    rw [Option.some.inj (ht.symm.trans ht')]
  | null | bool _ | int _ | float _ | str _ | category _ => exact Eq.trans h (Eq.symm h')
  | _ => exact False.elim h

end Value.ShownAs

/-- Whether a field is shown as a value that is there, or is absent if there is none. -/
def Shown (names : List Nat) (v : Option Value) (d : Option Datum) : Prop := Option.Rel (Value.ShownAs names) v d

namespace Shown
variable {names names' : List Nat} {v : Option Value} {d d' : Option Datum}

theorem mono (h : names <+: names') (hd : Shown names v d) : Shown names' v d := by
  cases hd with
  | none => exact .none
  | some hd => exact .some (hd.mono h)

theorem unique (h : Shown names v d) (h' : Shown names v d') : d = d' := by
  cases h with
  | none =>
    cases h'
    rfl
  | some hd =>
    cases h' with
    | some hd' => rw [hd.unique hd']

end Shown

/-- Whether a field is shown as a value if that is a scalar. -/
def ShowsScalar (names : List Nat) (v : Option Value) (d : Option Datum) : Prop :=
  (∀ w ∈ v, w.isScalar = true) → Shown names v d

/-! ### Machines that come after others -/

/-- A machine that comes after another: the spans that were there, the rights to bring contexts back and the names of
span ids are as they were, and so is the configuration. -/
structure Machine.Later (m m' : Machine) : Prop where
  logging : m'.logging = m.logging
  cell : m'.cell = m.cell
  cells : m.cells.size ≤ m'.cells.size
  tokens : Grows m.store.tokens m'.store.tokens
  spans : Grows m.store.spans m'.store.spans
  names : m.spanNames <+: m'.spanNames
  ids : m.spanIds ≤ m'.spanIds

namespace Machine.Later
variable {a b c : Machine}

theorem refl (m : Machine) : m.Later m := ⟨rfl, rfl, Nat.le_refl _, .refl _, .refl _, List.prefix_rfl, Nat.le_refl _⟩

theorem trans (h : a.Later b) (h' : b.Later c) : a.Later c where
  logging := h'.logging.trans h.logging
  cell := h'.cell.trans h.cell
  cells := Nat.le_trans h.cells h'.cells
  tokens := h.tokens.trans h'.tokens
  spans := h.spans.trans h'.spans
  names := h.names.trans h'.names
  ids := Nat.le_trans h.ids h'.ids

end Machine.Later

/-- A machine that comes after another, whose mappings, lists and tuples are as they were, and whose errors are what
they were. -/
structure Machine.Preserved (m m' : Machine) : Prop extends Machine.Later m m' where
  dicts : Grows m.store.dicts m'.store.dicts
  lists : Grows m.store.lists m'.store.lists
  tuples : Grows m.store.tuples m'.store.tuples
  faults : ∀ i < m.store.faults.size, i < m'.store.faults.size ∧
    (m'.store.fault i).detail = (m.store.fault i).detail ∧ (m'.store.fault i).args = (m.store.fault i).args

namespace Machine.Preserved
variable {a b c : Machine}

theorem refl (m : Machine) : m.Preserved m :=
  { Later.refl m with
    dicts := .refl _, lists := .refl _, tuples := .refl _, faults := fun _ hi => ⟨hi, rfl, rfl⟩ }

theorem trans (h : a.Preserved b) (h' : b.Preserved c) : a.Preserved c :=
  { h.toLater.trans h'.toLater with
    dicts := h.dicts.trans h'.dicts
    lists := h.lists.trans h'.lists
    tuples := h.tuples.trans h'.tuples
    faults := fun i hi =>
      have ⟨hlt, hdetail, hargs⟩ := h.faults i hi
      have ⟨hlt', hdetail', hargs'⟩ := h'.faults i hlt
      ⟨hlt', hdetail'.trans hdetail, hargs'.trans hargs⟩ }

end Machine.Preserved

/-- The machine after an entry has been recorded. -/
def Machine.logged (m : Machine) (d : Datum) : Machine := { m with logs := d :: m.logs }

/-- What is done without an entry to the log: contexts and spans are as they were, too. -/
structure Machine.Silent (m m' : Machine) : Prop extends Machine.Preserved m m' where
  same_cells : m'.cells = m.cells
  same_spans : m'.store.spans = m.store.spans
  logs : m'.logs = m.logs

namespace Machine.Silent
variable {a b c m m' : Machine}

theorem refl (m : Machine) : m.Silent m :=
  { Preserved.refl m with same_cells := rfl, same_spans := rfl, logs := rfl }

theorem trans (h : a.Silent b) (h' : b.Silent c) : a.Silent c :=
  { h.toPreserved.trans h'.toPreserved with
    same_cells := h'.same_cells.trans h.same_cells
    same_spans := h'.same_spans.trans h.same_spans
    logs := h'.logs.trans h.logs }

theorem scope (h : m.Silent m') : m'.scope = m.scope := by
  unfold Machine.scope
  rw [h.same_cells, h.cell]

/-- What an error is and what it was constructed with stays when something else about it changes. -/
theorem updateFault (m : Machine) (i : Nat) {f : Fault → Fault}
    (hf : ∀ fault, (f fault).detail = fault.detail ∧ (f fault).args = fault.args) :
    m.Silent { m with store := m.store.updateFault i f } :=
  { Silent.refl m with
    faults := by
      intro j hj
      have hfault : (m.store.updateFault i f).fault j = if i = j then f (m.store.fault j) else m.store.fault j := by
        simp only [Store.updateFault, Store.fault, Array.getD_eq_getD_getElem?, Array.getElem?_modify]
        split <;> simp [hj]
      refine ⟨by simpa [Store.updateFault] using hj, ?_⟩
      rw [show (Machine.store { m with store := m.store.updateFault i f }).fault j = _ from hfault]
      split
      · exact hf _
      · exact ⟨rfl, rfl⟩ }

theorem withoutReturn (m : Machine) (error : Value) (fuel : Nat) (handled : Value) :
    m.Silent { m with store := m.store.withoutReturn error fuel handled } := by
  fun_induction Store.withoutReturn m.store error fuel handled with
  | case1 => exact updateFault m _ fun _ => ⟨rfl, rfl⟩
  | case2 _ _ _ _ ih => exact ih
  | case3 => exact refl m

/-- An error that is raised is the same as before. -/
theorem noteRaised (m : Machine) (error handled : Value) :
    m.Silent { m with store := m.store.noteRaised error handled } := by
  unfold Store.noteRaised
  split
  · rename_i i
    have hraised := updateFault m i (f := fun f => { f with raised := true }) fun _ => ⟨rfl, rfl⟩
    split
    · exact hraised
    · let raised : Machine := { m with store := m.store.updateFault i fun f => { f with raised := true } }
      have hreturn := withoutReturn raised (.fault i) raised.store.faults.size handled
      exact (hraised.trans hreturn).trans (updateFault _ i fun _ => ⟨rfl, rfl⟩)
  · exact refl m

end Machine.Silent

namespace Work
variable {α β : Type} {σ : Service} {m₀ m : Machine}

/-- Whether work gives a result without an entry to the log, on every machine that comes after one. -/
def Calm (σ : Service) (m₀ : Machine) (w : Work α) : Prop :=
  ∀ m, m₀.Preserved m → ∃ a m', w σ m = (.done a, m') ∧ m.Silent m'

theorem calm_pure (a : α) : (pure a : Work α).Calm σ m₀ := fun m _ => ⟨a, m, rfl, .refl m⟩

theorem Calm.bind {w : Work α} {f : α → Work β} (hw : w.Calm σ m₀) (hf : ∀ a, (f a).Calm σ m₀) : (w >>= f).Calm σ m₀ := by
  intro m hm
  obtain ⟨a, m₁, hrun, hsilent⟩ := hw m hm
  obtain ⟨b, m₂, hrest, hsilent'⟩ := hf a m₁ (hm.trans hsilent.toPreserved)
  exact ⟨b, m₂, by rw [bind_eq, hrun]; exact hrest, hsilent.trans hsilent'⟩

theorem calm_each {f : α → Work β} {as : List α} (hf : ∀ a ∈ as, (f a).Calm σ m₀) : (each f as).Calm σ m₀ := by
  induction as with
  | nil => exact calm_pure []
  | cons a as ih =>
    exact (hf a (.head _)).bind fun b => (ih fun a' ha' => hf a' (.tail _ ha')).bind fun bs => calm_pure _

/-- A scalar is shown without an entry to the log. -/
theorem see_of_isScalar {v : Value} (h : v.isScalar = true) (σ : Service) (m : Machine) :
    ∃ d m', see v σ m = (.done d, m') ∧ m.Silent m' ∧ v.ShownAs m'.spanNames d := by
  have hcontent : see v σ m = observeContent 979 v σ m := by
    have hid : m.idOf? v = none := by
      unfold Machine.idOf?
      rw [if_pos h]
    unfold see seenDepth observe
    rw [machine_bind]
    dsimp only
    rw [hid]
  rw [hcontent]
  cases v with
  | spanId n =>
    have hname : observeContent 979 (.spanId n) σ m = (spanName n >>= fun t => pure (.str t) : Work Datum) σ m := by
      unfold observeContent
      rfl
    rw [hname, bind_eq]
    unfold spanName
    cases hn : m.spanNames.findIdx? (· = n) with
    | some i => exact ⟨_, m, rfl, .refl m, _, by simp [spanText?, hn], rfl⟩
    | none =>
      let m' : Machine := { m with spanNames := m.spanNames ++ [n] }
      refine ⟨.str _, m', rfl, { Machine.Silent.refl m with names := List.prefix_append _ _ }, _, ?_, rfl⟩
      simp [spanText?, m', List.findIdx?_append, hn]
  | null | bool _ | int _ | float _ | str _ | category _ => exact ⟨_, m, rfl, .refl m, rfl⟩
  | _ => cases h

theorem calm_see_of_isScalar {v : Value} (h : v.isScalar = true) : (see v).Calm σ m₀ := by
  intro m _
  obtain ⟨d, m', hsee, hsilent, -⟩ := see_of_isScalar h σ m
  exact ⟨d, m', hsee, hsilent⟩

/-! ### Entries -/

/-- The fields of an entry are shown in place; a duration is not. -/
theorem shown_fields (hm : m₀.Preserved m) {fields : Table Value} (hfields : ∀ e ∈ fields, (see e.2).Calm σ m₀) :
    ∃ shown m', each (fun e => do if e.1 = "duration_ms" then return (e.1, Datum.null) else return (e.1, ← see e.2))
        fields σ m = (.done shown, m') ∧ m.Silent m' ∧
      ∀ name ≠ "duration_ms", ShowsScalar m'.spanNames (fields.get? name) (Table.get? shown name) := by
  induction fields generalizing m with
  | nil => exact ⟨[], m, rfl, .refl m, fun _ _ _ => .none⟩
  | cons e fields ih =>
    obtain ⟨key, v⟩ := e
    have hfirst : ∃ d m₁, (do if key = "duration_ms" then return (key, Datum.null) else return (key, ← see v) :
        Work (String × Datum)) σ m = (.done (key, d), m₁) ∧ m.Silent m₁ ∧
          (key ≠ "duration_ms" → ShowsScalar m₁.spanNames (some v) (some d)) := by
      by_cases hkey : key = "duration_ms"
      · exact ⟨.null, m, by rw [if_pos hkey]; rfl, .refl m, fun h => absurd hkey h⟩
      rw [if_neg hkey]
      by_cases hv : v.isScalar = true
      · obtain ⟨d, m₁, hsee, hsilent, hshown⟩ := see_of_isScalar hv σ m
        exact ⟨d, m₁, by rw [bind_eq, hsee]; rfl, hsilent, fun _ _ => .some hshown⟩
      · obtain ⟨d, m₁, hsee, hsilent⟩ := hfields (key, v) (.head _) m hm
        exact ⟨d, m₁, by rw [bind_eq, hsee]; rfl, hsilent, fun _ h => absurd (h v rfl) hv⟩
    obtain ⟨d, m₁, hd, hsilent, hshows⟩ := hfirst
    obtain ⟨shown, m', hrest, hsilent', hrests⟩ :=
      ih (hm.trans hsilent.toPreserved) fun e he => hfields e (.tail _ he)
    refine ⟨(key, d) :: shown, m', ?_, hsilent.trans hsilent', fun name hname => ?_⟩
    · unfold each
      rw [bind_eq, hd]
      dsimp only
      rw [bind_eq, hrest]
      rfl
    · unfold Table.get?
      by_cases heq : key = name
      · rw [if_pos heq, if_pos heq]
        exact fun hscalar => (hshows (heq ▸ hname) hscalar).mono hsilent'.names
      · rw [if_neg heq, if_neg heq]
        exact hrests name hname

/-- What the fields named first are seen as is only asked for where they are there. -/
theorem calm_named {fields : Table Value} (hfields : ∀ e ∈ fields, (see e.2).Calm σ m₀) (names : List String) :
    (each (fun name => match fields.get? name with
      | some v => see v
      | none => pure .null) names).Calm σ m₀ := by
  refine calm_each fun name _ => ?_
  split
  · rename_i v hv
    obtain ⟨e, he, -, rfl⟩ := Table.exists_mem_of_get? hv
    exact hfields e he
  · exact calm_pure _

/-- The data of fields: span ids are named first, if they are among them. -/
theorem fieldData_shown (hm : m₀.Preserved m) {fields : Table Value} (hfields : ∀ e ∈ fields, (see e.2).Calm σ m₀) :
    ∃ shown m', fieldData see fields σ m = (.done shown, m') ∧ m.Silent m' ∧
      ∀ name ≠ "duration_ms", ShowsScalar m'.spanNames (fields.get? name) (Table.get? shown name) := by
  obtain ⟨ids, m₁, hids, hsilent⟩ := calm_named hfields ["span_id", "parent_span_id"] m hm
  obtain ⟨shown, m₂, hshown, hsilent', hshows⟩ := shown_fields (hm.trans hsilent.toPreserved) hfields
  refine ⟨shown, m₂, ?_, hsilent.trans hsilent', hshows⟩
  exact (bind_done hids _).trans hshown

/-- The names of what an entry says of itself, and of what it does not show as it is. -/
def entryNames : List String := ["event", "level", "logger", "duration_ms", "exc_info"]

/-- An entry as it is recorded: it has the given event, and under all other names the given fields, or else those of the
context. -/
structure Recorded (names : List Nat) (event : String) (fields : Table Value) (c : LogContext) (d : Datum) : Prop where
  event : d.field? "event" = some (.str event)
  field : ∀ name ∉ entryNames, ShowsScalar names ((fields.get? name).or (Table.get? c.entries name)) (d.field? name)

/-- An entry is recorded whose fields can be shown. -/
theorem recordEntry_recorded (hm : m₀.Preserved m) (hplain : m.scope.fields.Plain) (logger : String)
    (method : LogMethod) (event : String) {fields : Table Value} (hfields : ∀ e ∈ fields, (see e.2).Calm σ m₀) :
    ∃ d m', recordEntry logger method (.str event) fields σ m = (.done (), m'.logged d) ∧
      m.Silent m' ∧ Recorded m'.spanNames event fields m.scope.fields d := by
  let given := if method = .exception && !fields.has "exc_info" then fields.set "exc_info" (.bool true) else fields
  let filled := given.fill m.scope.fields.entries
  let all := if filled.has "logger" then filled else filled.set "logger" (.str logger)
  let shows (v : Value) : Prop := (see v).Calm σ m₀
  have hscalar {v : Value} (h : v.isScalar = true) : shows v := calm_see_of_isScalar h
  have hgiven : ∀ e ∈ given, shows e.2 := by
    unfold given
    split
    · exact Table.forall_set (P := shows) hfields _ (hscalar (v := .bool true) rfl)
    · exact hfields
  have hfilled : ∀ e ∈ filled, shows e.2 :=
    Table.forall_fill (P := shows) hgiven fun e he => hscalar (hplain.entries e he)
  have hall : ∀ e ∈ all, shows e.2 := by
    unfold all
    split
    · exact hfilled
    · exact Table.forall_set (P := shows) hfilled _ (hscalar (v := .str logger) rfl)
  -- Under names that are not the entry's own, these are the given fields and those of the context.
  have hget : ∀ name ∉ entryNames, all.get? name = (fields.get? name).or (Table.get? m.scope.fields.entries name) := by
    intro name hname
    simp only [entryNames, List.mem_cons, List.not_mem_nil, or_false, not_or] at hname
    have hlogger : all.get? name = filled.get? name := by
      unfold all
      split
      · rfl
      · rw [Table.get?_set, if_neg (Ne.symm hname.2.2.1)]
    have hexception : given.get? name = fields.get? name := by
      unfold given
      split
      · rw [Table.get?_set, if_neg (Ne.symm hname.2.2.2.2)]
      · rfl
    rw [hlogger, Table.get?_fill, hexception]
  obtain ⟨shown, m₂, hdata, hsilent, hshows⟩ := fieldData_shown hm hall
  let head : Table Datum := [("event", .str event), ("level", .str method.shown)]
  refine ⟨.obj (Table.merge shown head), m₂, ?_, hsilent, ?_, fun name hname => ?_⟩
  · unfold recordEntry
    rw [bind_eq, contextFields_eq hplain]
    dsimp only
    rw [bind_eq, show entryFields all σ m = _ from hdata]
    rfl
  · simp [Datum.field?, Table.merge, head, Table.get?_set]
  · have hne := hname
    simp only [entryNames, List.mem_cons, List.not_mem_nil, or_false, not_or] at hne
    have hmerge : Table.get? (Table.merge shown head) name = Table.get? shown name := by
      refine Table.get?_merge_of_ne _ fun e he => ?_
      simp only [head, List.mem_cons, List.not_mem_nil, or_false] at he
      rcases he with rfl | rfl
      · exact Ne.symm hne.1
      · exact Ne.symm hne.2.1
    rw [Datum.field?, hmerge, ← hget name hname]
    exact hshows name hne.2.2.2.1

/-- Without a chain an entry is recorded, unless its fields have names of other things. -/
theorem write_none (logger : String) (method : LogMethod) (event : Value) {fields : Table Value}
    (hnames : ∀ name ∈ ["event", "self", "method_name"], fields.get? name = none) :
    write none logger method event fields = recordEntry logger method event fields := by
  have hfind : ["event", "self", "method_name"].find? fields.has = none := by
    refine List.find?_eq_none.mpr fun name hname => ?_
    rw [Table.has, hnames name hname]
    exact Bool.false_ne_true
  unfold write checkFields
  rw [hfind]
  rfl

end Work
end Treeworks
