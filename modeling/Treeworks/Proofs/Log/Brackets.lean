import Treeworks.Answer
import Treeworks.Proofs.Log.Recording

/-! Programs of timed steps, where entries are recorded as they are. The first entries of the steps and the last ones
form brackets. A step that is cut off, by an error that handlers of ordinary errors do not see, has no last entry. The
last entry of a step that ends well is recorded in the context of before, that of an error in the context of the step. -/
namespace Treeworks
open Work

/-- A program of timed steps. It can be told of the metrics of the innermost step that is open. -/
inductive Steps
  | skip
  | andThen (first rest : Steps)
  | raise (error : Value)
  | rescue (body handler : Steps)
  | measure (name : String) (value : Value)
  | step (event level : String) (values : Table Value) (body : Steps)

/-- How a step ends: well, with an error that handlers of ordinary errors see, or with another. -/
inductive Block.Ending
  | normal | failed | cut
  deriving DecidableEq

/-- A timed step that a program has gone through: its event, the number of its span, the contexts around it and in it,
how it has ended, and the steps inside of it. -/
structure Block where
  event : String
  span : Nat
  outer : LogContext
  inner : LogContext
  ending : Block.Ending
  inside : List Block

namespace Steps

/-- What a program does in a step whose span is given, if it is in any. -/
def run : Steps → Option Nat → Work Unit
  | .skip, _ => pure ()
  | .andThen p q, i => do
    p.run i
    q.run i
  | .raise e, _ => raiseValue e
  | .rescue p q, i => do
    match ← attempt (p.run i) with
    | .ok _ => return ()
    | .error e => handling e (q.run i)
  | .measure name value, some i => do setItem ((← store).span i).metrics (.str name) value
  | .measure .., none => pure ()
  | .step event level values p, _ => do
    let step ← openStep (.str event) (.bool true) (.str level) values
    closeStep step (← attempt (p.run (some step.span)))

end Steps

/-- How a step ends whose body comes to something. -/
def Block.Ending.of : Outcome Unit × Machine → Block.Ending
  | (.done _, _) => .normal
  | (.raised e, m) => if Work.ordinary m.store e then .failed else .cut
  | (.spent, _) => .cut

namespace Steps

/-- The steps that a program goes through as it runs. -/
def blocks (σ : Service) : Steps → Option Nat → Machine → List Block
  | .andThen p q, i, m =>
    p.blocks σ i m ++
      match p.run i σ m with
      | (.done _, m) => q.blocks σ i m
      | _ => []
  | .rescue p q, i, m =>
    p.blocks σ i m ++
      match p.run i σ m with
      | (.raised e, m) => q.blocks σ i { m with handling := e :: m.handling }
      | _ => []
  | .step event level values p, _, m =>
    match openStep (.str event) (.bool true) (.str level) values σ m with
    | (.done opened, m₁) =>
      [⟨event, m.spanIds, m.scope.fields, stepContext m.scope.fields (.spanId m.spanIds) values,
        .of (p.run (some opened.span) σ m₁), p.blocks σ (some opened.span) m₁⟩]
    | _ => []
  | _, _, _ => []

/-- Whether a program can be told of in the log from a machine on: the errors that it raises have texts, steps have
levels that loggers know, what goes into a context is a scalar, and metrics can be shown and have names that are free. -/
def Fit (σ : Service) (m : Machine) : Steps → Prop
  | .skip => True
  | .andThen p q | .rescue p q => p.Fit σ m ∧ q.Fit σ m
  | .raise e => e.isFault = true ∧ (printed e).Calm σ m
  | .measure name value => name ∉ reservedNames ∧ (see value).Calm σ m
  | .step _ level values p =>
    (∃ method, LoggerPart.ofName? false level = some (.method method)) ∧
      (∀ e ∈ values, isScopeName e.1 = true → e.2.isScalar = true) ∧ Measures σ m (stepMetrics values) ∧ p.Fit σ m

end Steps

/-! ### Brackets -/

mutual
/-- The numbers of the spans of a step and of those inside of it. -/
def Block.numbers : Block → List Nat
  | ⟨_, span, _, _, _, inside⟩ => span :: Block.allNumbers inside

/-- The numbers of the spans of some steps and of those inside of them. -/
def Block.allNumbers : List Block → List Nat
  | [] => []
  | b :: rest => b.numbers ++ Block.allNumbers rest
end

/-- The last entry of a step, if it has one. It has the span of the first one and what stands above that. The entry of an
error is recorded in the same context as the first one, that of a normal end in the context around the step. -/
inductive Closes (names : List Nat) (b : Block) (opening : Datum) : List Datum → Prop
  | normal {d : Datum} : b.ending = .normal →
      StepEntry names (b.event ++ ".end") (.spanId b.span) b.outer.spanId.present b.outer d →
      (∀ name ∈ ["span_id", "parent_span_id"], opening.field? name = d.field? name) →
      (∀ name ∈ scopeNames, b.inner.field name = b.outer.field name → opening.field? name = d.field? name) →
      Closes names b opening [d]
  | failed {d : Datum} : b.ending = .failed →
      StepEntry names (b.event ++ ".error") (.spanId b.span) b.outer.spanId.present b.inner d →
      (∀ name ∈ ["span_id", "parent_span_id"] ++ scopeNames, opening.field? name = d.field? name) →
      Closes names b opening [d]
  | cut : b.ending = .cut → Closes names b opening []

/-- The entries of steps: for each, the first one, recorded in its context, those of the steps inside of it, and the last
one, if it has one. -/
inductive Logged (names : List Nat) : List Block → List Datum → Prop
  | nil : Logged names [] []
  | cons {b : Block} {rest : List Block} {opening : Datum} {inside closing after : List Datum} :
      StepEntry names (b.event ++ ".start") (.spanId b.span) b.outer.spanId.present b.inner opening →
      Logged names b.inside inside → Closes names b opening closing → Logged names rest after →
      Logged names (b :: rest) (opening :: (inside ++ closing ++ after))

section
variable {names names' : List Nat} {b : Block} {opening : Datum}

theorem Work.StepEntry.mono (h : names <+: names') {event : String} {id : Value} {parent : Option Value} {c : LogContext}
    {d : Datum} (hd : StepEntry names event id parent c d) : StepEntry names' event id parent c d where
  event := hd.event
  span := hd.span.mono h
  parent := hd.parent.mono h
  scope name hname := (hd.scope name hname).mono h

theorem Closes.mono (h : names <+: names') {entries : List Datum} (hcloses : Closes names b opening entries) :
    Closes names' b opening entries := by
  cases hcloses with
  | normal hending hd hids hscope => exact .normal hending (hd.mono h) hids hscope
  | failed hending hd hsame => exact .failed hending (hd.mono h) hsame
  | cut hending => exact .cut hending

theorem Logged.mono (h : names <+: names') {bs : List Block} {entries : List Datum} (hlogged : Logged names bs entries) :
    Logged names' bs entries := by
  induction hlogged with
  | nil => exact .nil
  | cons hopening _ hcloses _ hinside hafter => exact .cons (hopening.mono h) hinside (hcloses.mono h) hafter

theorem Logged.append {bs bs' : List Block} {entries entries' : List Datum} (h : Logged names bs entries)
    (h' : Logged names bs' entries') : Logged names (bs ++ bs') (entries ++ entries') := by
  induction h with
  | nil => exact h'
  | cons hopening hinside hcloses _ _ hafter =>
    rw [List.cons_append, List.cons_append, List.append_assoc]
    exact .cons hopening hinside hcloses hafter

/-- Entries of one span have the same ids, and the same of what is the same in their contexts. -/
theorem Work.StepEntry.agree {event event' : String} {id : Value} {parent : Option Value} {c c' : LogContext} {d d' : Datum}
    (h : StepEntry names event id parent c d) (h' : StepEntry names event' id parent c' d')
    (hparent : parent = none → c.parentSpanId = c'.parentSpanId) :
    (∀ name ∈ ["span_id", "parent_span_id"], d.field? name = d'.field? name) ∧
      ∀ name ∈ scopeNames, c.field name = c'.field name → d.field? name = d'.field? name := by
  have habove : parent.or c.parentSpanId.present = parent.or c'.parentSpanId.present := by
    cases parent with
    | none => rw [hparent rfl]
    | some v => rfl
  refine ⟨fun name hname => ?_, fun name hname hfield => ?_⟩
  · simp only [List.mem_cons, List.not_mem_nil, or_false] at hname
    rcases hname with rfl | rfl
    · exact h.span.unique h'.span
    · exact h.parent.unique (habove ▸ h'.parent)
  · exact (h.scope name hname).unique (hfield ▸ h'.scope name hname)

end

/-- What stands above the current span stays in the context of a step that has no span above it. -/
theorem Work.stepContext_parentSpanId {c : LogContext} (h : c.spanId = .null) (id : Value) (values : Table Value) :
    (stepContext c id values).parentSpanId = c.parentSpanId := by
  have hname : "parent_span_id" ∈ LogContext.fieldNames := by decide
  have hne : "span_id" ≠ "parent_span_id" := by decide
  refine (c.overrides_merge _).field_eq hname fun e he hname => ?_
  simp only [List.cons_append, List.nil_append, List.mem_cons, List.mem_filter] at he
  rcases he with rfl | rfl | ⟨-, hscope⟩
  · exact absurd hname hne
  · exact h
  · rw [hname] at hscope
    exact absurd hscope (by decide)

/-! ### Runs -/

/-- What a run comes to that goes through some steps: their entries are recorded, and the context is the one of before. -/
structure Told (σ : Service) (m₀ : Machine) (bs : List Block) (m m' : Machine) : Prop where
  recording : Recording σ m₀ m'
  later : m.Later m'
  scope : m'.scope = m.scope
  logs : ∃ entries, m'.logs = entries.reverse ++ m.logs ∧ Logged m'.spanNames bs entries
  bounds : ∀ n ∈ Block.allNumbers bs, m.spanIds ≤ n ∧ n < m'.spanIds
  nodup : (Block.allNumbers bs).Nodup

theorem Block.allNumbers_append (bs bs' : List Block) :
    Block.allNumbers (bs ++ bs') = Block.allNumbers bs ++ Block.allNumbers bs' := by
  induction bs with
  | nil => rfl
  | cons b bs ih => rw [List.cons_append, allNumbers, allNumbers, ih, List.append_assoc]

namespace Told
variable {σ : Service} {m₀ m m₁ m₂ m₃ : Machine} {bs bs' : List Block}

theorem quiet (hrecording : Recording σ m₀ m₁) (hlater : m.Later m₁) (hscope : m₁.scope = m.scope)
    (hlogs : m₁.logs = m.logs) : Told σ m₀ [] m m₁ :=
  ⟨hrecording, hlater, hscope, ⟨[], hlogs, .nil⟩, nofun, .nil⟩

theorem silent (h : Recording σ m₀ m) (hs : m.Silent m₁) : Told σ m₀ [] m m₁ :=
  quiet (h.silent hs) hs.toLater hs.scope hs.logs

theorem trans (h : Told σ m₀ bs m m₁) (h' : Told σ m₀ bs' m₁ m₂) : Told σ m₀ (bs ++ bs') m m₂ where
  recording := h'.recording
  later := h.later.trans h'.later
  scope := h'.scope.trans h.scope
  logs := by
    obtain ⟨entries, hlogs, hlogged⟩ := h.logs
    obtain ⟨entries', hlogs', hlogged'⟩ := h'.logs
    refine ⟨entries ++ entries', ?_, (hlogged.mono h'.later.names).append hlogged'⟩
    rw [hlogs', hlogs, List.reverse_append, List.append_assoc]
  bounds n hn := by
    rw [Block.allNumbers_append] at hn
    rcases List.mem_append.mp hn with hn | hn
    · exact ⟨(h.bounds n hn).1, Nat.lt_of_lt_of_le (h.bounds n hn).2 h'.later.ids⟩
    · exact ⟨Nat.le_trans h.later.ids (h'.bounds n hn).1, (h'.bounds n hn).2⟩
  nodup := by
    rw [Block.allNumbers_append]
    refine List.nodup_append.mpr ⟨h.nodup, h'.nodup, fun n hn k hk => ?_⟩
    exact Nat.ne_of_lt (Nat.lt_of_lt_of_le (h.bounds n hn).2 (h'.bounds k hk).1)

end Told

/-- A step is told of by its entries and those of what is inside of it. -/
theorem Opens.block {σ : Service} {m₀ m m₁ m₂ m₃ : Machine} {bs : List Block} {event : String} {values : Table Value}
    {ending : Block.Ending} {d : Datum} {entries : List Datum} (hopens : Opens σ m₀ m event values d m₁) (hinside : Told σ m₀ bs m₁ m₂)
    (hback : Back σ m₀ m m₂ entries m₃)
    (hcloses : Closes m₃.spanNames ⟨event, m.spanIds, m.scope.fields,
      stepContext m.scope.fields (.spanId m.spanIds) values, ending, bs⟩ d entries.reverse) :
    Told σ m₀ [⟨event, m.spanIds, m.scope.fields, stepContext m.scope.fields (.spanId m.spanIds) values, ending, bs⟩] m
      m₃ where
  recording := hback.recording
  later := hback.later
  scope := hback.scope
  logs := by
    obtain ⟨told, hlogs, hlogged⟩ := hinside.logs
    refine ⟨d :: (told ++ entries.reverse ++ []), ?_, ?_⟩
    · rw [hback.logs, hlogs, hopens.logs]
      simp
    · have hnames := hinside.later.names.trans hback.names
      exact .cons (hopens.entry.mono hnames) (hlogged.mono hback.names) hcloses .nil
  bounds n hn := by
    simp only [Block.allNumbers, Block.numbers, List.append_nil, List.mem_cons] at hn
    rcases hn with rfl | hn
    · exact ⟨Nat.le_refl _, Nat.lt_of_lt_of_le hopens.ids (Nat.le_trans hinside.later.ids hback.ids)⟩
    · have hbounds := hinside.bounds n hn
      exact ⟨Nat.le_trans (Nat.le_of_lt hopens.ids) hbounds.1, Nat.lt_of_lt_of_le hbounds.2 hback.ids⟩
  nodup := by
    simp only [Block.allNumbers, Block.numbers, List.append_nil, List.nodup_cons]
    refine ⟨fun hn => ?_, hinside.nodup⟩
    exact absurd (hinside.bounds _ hn).1 (Nat.not_le.mpr hopens.ids)

/-- Whether work ends, with a result or an error that has a text, and the steps that it goes through are told of. -/
def Tells (σ : Service) (m₀ : Machine) (bs : List Block) (w : Work Unit) (m : Machine) : Prop :=
  ∃ out m', w σ m = (out, m') ∧ out ≠ .spent ∧ (∀ e, out = .raised e → (printed e).Calm σ m₀) ∧ Told σ m₀ bs m m'

namespace Steps
variable {σ : Service} {m₀ m : Machine}

/-- A step is told of if its body is. -/
theorem tells_step (h : Recording σ m₀ m) {event level : String} {values : Table Value} {p : Steps}
    (hfit : (step event level values p).Fit σ m₀)
    (hbody : ∀ {m₁}, Recording σ m₀ m₁ → m.store.spans.size < m₁.store.spans.size →
      Tells σ m₀ (p.blocks σ (some m.store.spans.size) m₁) (p.run (some m.store.spans.size)) m₁) (i : Option Nat) :
    Tells σ m₀ ((step event level values p).blocks σ i m) ((step event level values p).run i) m := by
  obtain ⟨⟨method, hlevel⟩, hscalars, hmetrics, -⟩ := hfit
  obtain ⟨d, m₁, hopen, hopens⟩ := h.opens event level hscalars hmetrics
  obtain ⟨out, m₂, hrun, hends, herror, hinside⟩ := hbody hopens.recording hopens.span_lt
  have hholding := hopens.holding hinside.later
  have hlt : m.store.spans.size < m₂.store.spans.size := Nat.lt_of_lt_of_le hopens.span_lt hinside.later.spans.size
  have hspan : m₂.store.span m.store.spans.size = m.nextSpan (.str event) :=
    (hinside.later.spans.same _ hopens.span_lt default).trans hopens.span
  let inner := stepContext m.scope.fields (.spanId m.spanIds) values
  have hblocks : (step event level values p).blocks σ i m = [⟨event, m.spanIds, m.scope.fields, inner, .of (out, m₂),
      p.blocks σ (some m.store.spans.size) m₁⟩] := by
    rw [blocks, hopen, ← hrun]
    rfl
  have hstep {result : Except Value Unit} (hresult : attempt (p.run (some m.store.spans.size)) σ m₁ = (.done result, m₂)) :
      (step event level values p).run i σ m = closeStep (m.nextStep (.str event) (.str level)) result σ m₂ :=
    (bind_done hopen _).trans (bind_done hresult _)
  have hscope : m₂.scope.fields = inner := by rw [hinside.scope, hopens.scope]
  -- Where the step has no span above it, what the context says of that is the same around the step and in it.
  have hparent : m.scope.fields.spanId.present = none → inner.parentSpanId = m.scope.fields.parentSpanId := by
    unfold Value.present
    split
    · exact fun _ => stepContext_parentSpanId ‹_› _ values
    · exact fun hnone => by simp at hnone
  rw [hblocks]
  cases out with
  | done u =>
    obtain ⟨d', m₃, hclose, hback, hentry⟩ := closeStep_ok_recorded h hinside.recording hholding hlt hspan hlevel
    have hopening := hopens.entry.mono (hinside.later.names.trans hback.names)
    obtain ⟨hids, hfields⟩ := hopening.agree hentry hparent
    have hresult : attempt (p.run (some m.store.spans.size)) σ m₁ = (.done (.ok u), m₂) := by rw [attempt, hrun]
    exact ⟨.done (), m₃, (hstep hresult).trans hclose, by simp, by simp,
      hopens.block hinside hback (.normal rfl hentry hids hfields)⟩
  | raised e =>
    obtain ⟨entries, m₃, hclose, hback, hentry⟩ :=
      closeStep_error_recorded h hinside.recording hholding hlt hspan level (herror e rfl)
    have hopening := hopens.entry.mono (hinside.later.names.trans hback.names)
    have hresult : attempt (p.run (some m.store.spans.size)) σ m₁ = (.done (.error e), m₂) := by rw [attempt, hrun]
    refine ⟨.raised e, m₃, (hstep hresult).trans hclose, by simp, herror, hopens.block hinside hback ?_⟩
    by_cases hordinary : ordinary m₂.store e = true
    · rw [if_pos hordinary] at hentry
      obtain ⟨d', rfl, hentry⟩ := hentry
      rw [hscope] at hentry
      obtain ⟨hids, hfields⟩ := hopening.agree hentry fun _ => rfl
      refine .failed (if_pos hordinary) hentry fun name hname => ?_
      rcases List.mem_append.mp hname with hname | hname
      · exact hids name hname
      · exact hfields name hname rfl
    · rw [if_neg hordinary] at hentry
      subst hentry
      exact .cut (if_neg hordinary)
  | spent => exact absurd rfl hends

/-- The steps that a program goes through are told of. -/
theorem tells_run (p : Steps) {i : Option Nat} {m : Machine} (hfit : p.Fit σ m₀) (h : Recording σ m₀ m)
    (hi : ∀ k ∈ i, m₀.store.spans.size ≤ k ∧ k < m.store.spans.size) : Tells σ m₀ (p.blocks σ i m) (p.run i) m := by
  -- By induction on the program: the entries of its parts follow each other, and what comes between them tells of nothing.
  induction p generalizing i m with
  | skip => exact ⟨.done (), m, rfl, nofun, nofun, .silent h (.refl m)⟩
  | andThen p q hp hq =>
    obtain ⟨out, m₁, hrun, hends, herror, htold⟩ := hp hfit.1 h hi
    have hi₁ : ∀ k ∈ i, m₀.store.spans.size ≤ k ∧ k < m₁.store.spans.size := fun k hk =>
      ⟨(hi k hk).1, Nat.lt_of_lt_of_le (hi k hk).2 htold.later.spans.size⟩
    cases out with
    | done u =>
      obtain ⟨out', m₂, hrun', hends', herror', htold'⟩ := hq hfit.2 htold.recording hi₁
      have hblocks : (andThen p q).blocks σ i m = p.blocks σ i m ++ q.blocks σ i m₁ := by
        rw [blocks, hrun]
      rw [hblocks]
      exact ⟨out', m₂, (bind_done hrun _).trans hrun', hends', herror', htold.trans htold'⟩
    | raised e =>
      have hblocks : (andThen p q).blocks σ i m = p.blocks σ i m := by
        rw [blocks, hrun]
        exact List.append_nil _
      have hraised : (andThen p q).run i σ m = (.raised e, m₁) := by
        show (p.run i >>= fun _ => q.run i) σ m = _
        rw [bind_eq, hrun]
      rw [hblocks]
      exact ⟨.raised e, m₁, hraised, nofun, herror, htold⟩
    | spent => exact absurd rfl hends
  | raise e =>
    obtain ⟨hfault, htext⟩ := hfit
    let m₁ : Machine := { m with store := m.store.noteRaised e (m.handling.headD .null) }
    have hraised : (Steps.raise e).run i σ m = (.raised e, m₁) := by
      show (raiseValue e : Work Unit) σ m = _
      unfold raiseValue
      rw [if_pos hfault]
      rfl
    refine ⟨.raised e, m₁, hraised, nofun, fun e' he' => ?_, .silent h (.noteRaised m e _)⟩
    cases he'
    exact htext
  | rescue p q hp hq =>
    obtain ⟨out, m₁, hrun, hends, herror, htold⟩ := hp hfit.1 h hi
    cases out with
    | done u =>
      have hblocks : (rescue p q).blocks σ i m = p.blocks σ i m := by
        rw [blocks, hrun]
        exact List.append_nil _
      have hdone : (rescue p q).run i σ m = (.done (), m₁) := by
        have hresult : attempt (p.run i) σ m = (.done (.ok u), m₁) := by rw [attempt, hrun]
        exact bind_done hresult _
      rw [hblocks]
      exact ⟨.done (), m₁, hdone, nofun, nofun, htold⟩
    | raised e =>
      let handled : Machine := { m₁ with handling := e :: m₁.handling }
      have hi₁ : ∀ k ∈ i, m₀.store.spans.size ≤ k ∧ k < handled.store.spans.size := fun k hk =>
        ⟨(hi k hk).1, Nat.lt_of_lt_of_le (hi k hk).2 htold.later.spans.size⟩
      have hhandled : Told σ m₀ [] m₁ handled := .silent htold.recording { Machine.Silent.refl m₁ with }
      obtain ⟨out', m₂, hrun', hends', herror', htold'⟩ := hq hfit.2 hhandled.recording hi₁
      have hpopped : Told σ m₀ [] m₂ { m₂ with handling := m₂.handling.tail } :=
        .silent htold'.recording { Machine.Silent.refl m₂ with }
      have hblocks : (rescue p q).blocks σ i m = p.blocks σ i m ++ q.blocks σ i handled := by
        rw [blocks, hrun]
      have hrescued : (rescue p q).run i σ m = (out', { m₂ with handling := m₂.handling.tail }) := by
        have hresult : attempt (p.run i) σ m = (.done (.error e), m₁) := by rw [attempt, hrun]
        exact (bind_done hresult _).trans (handling_eq hrun' hends')
      have htells := (htold.trans hhandled).trans (htold'.trans hpopped)
      rw [List.append_nil, List.append_nil] at htells
      rw [hblocks]
      exact ⟨out', _, hrescued, hends', herror', htells⟩
    | spent => exact absurd rfl hends
  | measure name v =>
    cases i with
    | none => exact ⟨.done (), m, rfl, nofun, nofun, .silent h (.refl m)⟩
    | some k =>
      obtain ⟨hk, hlt⟩ := hi k rfl
      obtain ⟨m₁, hset, hrecording, hlater, hscope, hlogs⟩ := h.measure hk hlt hfit.1 hfit.2
      exact ⟨.done (), m₁, hset, nofun, nofun, .quiet hrecording hlater hscope hlogs⟩
  | step event level values p hp =>
    refine tells_step h hfit (fun hrecording hlt => hp hfit.2.2.2 hrecording fun k hk => ?_) i
    obtain rfl := Option.some.inj hk
    exact ⟨h.preserved.spans.size, hlt⟩

/-- Where entries are recorded as they are, a program of timed steps ends, in the context of before, with an entry as each
step is opened and another as it is closed, and those of the steps inside of it between them. Both have the same span, and
no two steps have one span. The entry of an error has all that the first one has from the context, that of a normal end
what the context around the step has. A step that ends with an error which handlers of ordinary errors do not see has no
other entry than its first one. -/
theorem spans_well_bracketed (h : m.Recorder) (p : Steps) (hfit : p.Fit σ m) :
    ∃ out m' entries, p.run none σ m = (out, m') ∧ out ≠ .spent ∧ m'.scope = m.scope ∧
      m'.logs = entries.reverse ++ m.logs ∧ Logged m'.spanNames (p.blocks σ none m) entries ∧
      (Block.allNumbers (p.blocks σ none m)).Nodup ∧
      ∀ n k d, Value.ShownAs m'.spanNames (.spanId n) d → Value.ShownAs m'.spanNames (.spanId k) d → n = k := by
  obtain ⟨out, m', hrun, hends, -, htold⟩ := tells_run (i := none) p hfit (.of_recorder h) fun _ hk => absurd hk (Option.not_mem_none _)
  obtain ⟨entries, hlogs, hlogged⟩ := htold.logs
  refine ⟨out, m', entries, hrun, hends, htold.scope, hlogs, hlogged, htold.nodup, fun n k d hn hk => ?_⟩
  obtain ⟨t, ht, rfl⟩ := hn
  obtain ⟨t', ht', heq⟩ := hk
  cases heq
  exact spanText?_inj ht ht'

end Steps

/-- The text under a name of an entry. -/
def Datum.textOf? (name : String) (d : Datum) : Option String :=
  match d.field? name with
  | some (.str t) => some t
  | _ => none

/-- An error that was constructed with a text has that text, unless it is of a missing key. -/
theorem Work.calm_printed {σ : Service} {m₀ : Machine} {i j : Nat} {kind : PlainKind} {t : String}
    (hi : i < m₀.store.faults.size) (hdetail : (m₀.store.fault i).detail = .plain kind) (hkind : kind ≠ .key)
    (hargs : (m₀.store.fault i).args = .tuple j) (hj : j < m₀.store.tuples.size)
    (htuple : m₀.store.tuple j = [.str t]) : (printed (.fault i)).Calm σ m₀ := by
  intro m hm
  obtain ⟨-, hdetail', hargs'⟩ := hm.faults i hi
  have hitems : m.store.elements? (m.store.fault i).args = some [.str t] := by
    rw [hargs', hargs]
    exact congrArg some ((hm.tuples.same j hj []).trans htuple)
  have hkept : (m.store.fault i).detail = .plain kind := hdetail'.trans hdetail
  have hplain : FaultDetail.plain kind ≠ .plain .key := fun h => hkind (FaultDetail.plain.inj h)
  have hspecial : (special? (.fault i) "__str__").Gives m none m := fun _ => rfl
  have hprinted : printed (.fault i) σ m = printedAt 949 (.str t) σ m := by
    unfold printed writtenDepth
    rw [printedAt]
    rw [(gives_store m).bind_eq, hspecial.bind_eq]
    dsimp only
    rw [hkept]
    dsimp only
    rw [hitems]
    dsimp only [Option.getD_some]
    rw [if_neg hplain]
  refine ⟨t, m, hprinted.trans ?_, .refl m⟩
  rw [printedAt]
  rfl

/-- A machine in which nothing has been done, with an error that handlers of ordinary errors see and one that they do
not. -/
def Machine.troubled : Machine :=
  let s := (Store.initial.addFault (.plain .value) [.str "boom"] .null).2
  { Machine.initial false with store := (s.addFault (.plain .halt) [.str "stop"] .null).2 }

theorem Machine.troubled_recorder : Machine.troubled.Recorder where
  chain := rfl
  cell := by decide
  plain := by
    unfold LogContext.Plain
    decide
  above := .inl rfl

namespace Steps
open Work

/-- A step that is told of a metric and fails. -/
def failing : Steps := .step "inner" "info" [("nodes", .int 3)] (.andThen (.measure "edges" (.int 2)) (.raise (.fault 0)))

/-- A step for a processor, in which another fails and a third is cut off. -/
def nesting : Steps :=
  .step "outer" "info" [("processor", .str "n")]
    (.andThen (.rescue failing .skip) (.rescue (.step "late" "debug" [] (.raise (.fault 1))) .skip))

theorem fit_nesting : nesting.Fit (service 0) .troubled := by
  have hint (n : Int) : (see (.int n)).Calm (service 0) .troubled := calm_see_of_isScalar rfl
  have hnone : Measures (service 0) .troubled [] := fun e he => absurd he List.not_mem_nil
  have hnodes : Measures (service 0) .troubled [("nodes", .int 3)] := by
    intro e he
    obtain rfl := List.mem_singleton.mp he
    exact ⟨by decide, hint 3⟩
  have hboom : (printed (.fault 0)).Calm (service 0) .troubled :=
    calm_printed (by decide) rfl nofun rfl (by decide) rfl
  have hstop : (printed (.fault 1)).Calm (service 0) .troubled :=
    calm_printed (by decide) rfl nofun rfl (by decide) rfl
  have hfailing : failing.Fit (service 0) .troubled :=
    ⟨⟨_, rfl⟩, by decide, hnodes, ⟨by decide, hint 2⟩, rfl, hboom⟩
  exact ⟨⟨_, rfl⟩, by decide, hnone, ⟨hfailing, trivial⟩, ⟨⟨_, rfl⟩, by decide, hnone, rfl, hstop⟩, trivial⟩

/-- The step that is cut off has no last entry, all others do. -/
theorem spans_well_bracketed_nesting :
    (nesting.run none (service 0) .troubled).2.logs.reverse.map (fun d => d.textOf? "event") =
        ["outer.start", "inner.start", "inner.error", "late.start", "outer.end"].map some ∧
      ∃ out m' entries, nesting.run none (service 0) .troubled = (out, m') ∧ out ≠ .spent ∧
        m'.scope = Machine.troubled.scope ∧ m'.logs = entries.reverse ++ Machine.troubled.logs ∧
        Logged m'.spanNames (nesting.blocks (service 0) none .troubled) entries ∧
        (Block.allNumbers (nesting.blocks (service 0) none .troubled)).Nodup ∧
        ∀ n k d, Value.ShownAs m'.spanNames (.spanId n) d → Value.ShownAs m'.spanNames (.spanId k) d → n = k :=
  ⟨by decide +kernel, spans_well_bracketed Machine.troubled_recorder nesting fit_nesting⟩

/-- A step that gives a processor says so as it begins, but not as it ends. A step that is cut off does not say that it has
ended. -/
theorem last_entries_amiss :
    ((step "s" "info" [("nodes", .int 1), ("processor", .str "n")] skip).run none (service 0) .troubled).2.logs.reverse.map
        (fun d => (d.textOf? "event", d.textOf? "processor")) = [(some "s.start", some "n"), (some "s.end", none)] ∧
      ((step "t" "info" [] (raise (.fault 1))).run none (service 0) .troubled).1.error? = some (.fault 1) ∧
      ((step "t" "info" [] (raise (.fault 1))).run none (service 0) .troubled).2.logs.reverse.map
        (fun d => d.textOf? "event") = [some "t.start"] := by
  decide +kernel

end Steps

end Treeworks
