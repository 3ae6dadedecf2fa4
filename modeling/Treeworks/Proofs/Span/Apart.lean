import Treeworks.Proofs.Run.Play
import Treeworks.Proofs.Span.Strand

/-! Calls of `process` that are in flight at once keep their logging contexts apart: wherever code of a call goes on, the
context is the one of the call. -/
namespace Treeworks
namespace Strands
variable {base : Nat → List Nat} {s s' : Strands} {τ τ' : History} {m : Move} {c : Nat} {x : Strand}

/-- Whether the settle callback of a step of a call has a cell of that call, and not that of its task. -/
def Fits (s : Strands) (h : Handle) : Prop :=
  ∀ t f, h.callback = .settled t f → t < s.runner.tickets.size ∧
    ∀ c, s.owner (s.runner.ticket t).run = some c → s.line h.cell = .drives c ∧ ∃ x, s.calls c = some x ∧ x.cell ≠ h.cell

/-- The invariant. -/
structure Sound (base : Nat → List Nat) (s : Strands) (τ : History) : Prop where
  reached : Reached base s.runner τ
  cell : s.machine.cell < s.machine.cells.size
  lines : ∀ k, s.line k ≠ .free → k < s.machine.cells.size
  known : ∀ k c, (s.line k).call? = some c → ∃ x, s.calls c = some x
  seen : ∀ k c x, (s.line k).call? = some c → s.calls c = some x → k ≠ s.machine.cell ∨ s.within = none →
    (s.machine.scopeAt k).fields = x.context
  owned : ∀ a ∈ s.runner.stack, ∀ c, s.owner a.run = some c → s.current = .drives c
  owner : ∀ i c, s.owner i = some c → i < s.runner.runs.size
  handles : ∀ h, s.machine.loop.Holds h → s.Fits h
  turn : ∀ h o, s.turn = some (h, o) → s.machine.cell = h.cell ∧ o < s.machine.cells.size ∧ s.Fits h
  marks : ∀ c x, s.calls c = some x → x.Marks x.context ∧ x.span < s.machine.spanIds ∧ x.cell < s.machine.cells.size
  spans_ne : ∀ c d x y, s.calls c = some x → s.calls d = some y → x.span = y.span → c = d
  rights : ∀ c x, s.Open c x → x.token < s.machine.store.tokens.size ∧
    s.machine.store.tokens.getD x.token default = ⟨x.cell, x.before, false⟩
  block : ∀ t, s.within = some t → t < s.machine.store.tokens.size ∧ (∀ c x, s.Open c x → x.token ≠ t) ∧
    ∃ c x previous, s.current.call? = some c ∧ s.calls c = some x ∧ previous.fields = x.context ∧
      s.machine.store.tokens.getD t default = ⟨s.machine.cell, previous, false⟩
  spans : ∀ p ∈ s.spans, ∃ x, s.calls p.1 = some x ∧ p.2 = .spanId x.span

namespace Sound

theorem tables (h : Sound base s τ) : s.runner.Tables base τ none := (Runner.consistent_of_reached h.reached).toTables

theorem begin {m : Machine} (hruns : m.store.runner.runs = #[]) (htickets : m.store.runner.tickets = #[])
    (hstack : m.store.runner.stack = []) (hcell : m.cell < m.cells.size)
    (hhandles : ∀ h, m.loop.Holds h → h.callback.awaits? = none) :
    Sound base ⟨m, fun _ => .free, fun _ => none, fun _ => none, [], none, none⟩ [] where
  reached := .begin hruns htickets hstack
  cell := hcell
  lines k hk := absurd rfl hk
  known k c hk := by cases hk
  seen k c x hk := by cases hk
  owned a ha c hc := by cases hc
  owner i c hi := by cases hi
  handles h hh t f hcallback := by
    have hawaits := hhandles h hh
    rw [hcallback] at hawaits
    cases hawaits
  turn h o hturn := by cases hturn
  marks c x hx := by cases hx
  spans_ne c d x y hx := by cases hx
  rights c x hx := by cases hx.1
  block t ht := by cases ht
  spans p hp := by cases hp

/-- The context in the cell of code of a call. -/
theorem scope_eq (h : Sound base s τ) (hcall : s.current.call? = some c) (hx : s.calls c = some x)
    (hwithin : s.within = none) : s.machine.scope.fields = x.context :=
  h.seen _ c x hcall hx (.inr hwithin)

/-- While no code of a call is in the current cell, no run of a call is on the stack. -/
theorem quiet (h : Sound base s τ) (hfree : ∀ c, s.current ≠ .drives c) : s.Quiet := by
  intro a ha
  cases ho : s.owner a.run with
  | none => rfl
  | some c => exact absurd (h.owned a ha c ho) (hfree c)

/-- A right of one open call is that of no other. -/
theorem token_ne {d : Nat} {y : Strand} (h : Sound base s τ) (hx : s.Open c x) (hy : s.Open d y) (hne : c ≠ d) :
    x.token ≠ y.token := by
  intro heq
  have hcells : x.cell = y.cell := by
    have htoken := (h.rights c x hx).2
    rw [heq, (h.rights d y hy).2] at htoken
    exact (congrArg Token.cell htoken).symm
  have hlines : Line.drives c = .drives d := hx.2.symm.trans (hcells ▸ hy.2)
  exact hne (Line.drives.inj hlines)

end Sound

/-- A settle callback that fits does so later on, as long as its step is of the same call, and its cell is for that. -/
theorem Fits.later {h : Handle} (hfits : s.Fits h)
    (htickets : ∀ t < s.runner.tickets.size, t < s'.runner.tickets.size ∧
      s'.owner (s'.runner.ticket t).run = s.owner (s.runner.ticket t).run)
    (hcalls : ∀ c x, s.calls c = some x → s'.calls c = some x)
    (hline : ∀ c x, s.line h.cell = .drives c → s.calls c = some x → x.cell ≠ h.cell → s'.line h.cell = .drives c) :
    s'.Fits h := by
  intro t f hcallback
  obtain ⟨ht, hlines⟩ := hfits t f hcallback
  obtain ⟨ht', howner⟩ := htickets t ht
  refine ⟨ht', fun c hc => ?_⟩
  obtain ⟨hdrives, x, hx, hcell⟩ := hlines c (howner ▸ hc)
  exact ⟨hline c x hdrives hx hcell, x, hcalls c x hx, hcell⟩

namespace Sound

theorem register (h : Sound base s τ) (ware step : Nat) : Sound base s (τ ++ [.registered ware step]) :=
  { h with reached := h.reached.register ware step }

theorem outside {m : Machine} (h : Sound base s τ) (ho : s.Outside m) : Sound base { s with machine := m } τ := by
  obtain ⟨wares, steps, hrunner⟩ := ho.runner
  have hruns : m.store.runner.runs = s.runner.runs := by rw [hrunner]
  have hstack : m.store.runner.stack = s.runner.stack := by rw [hrunner]
  have htickets : m.store.runner.tickets = s.runner.tickets := by rw [hrunner]
  have hcurrent : s.line m.cell = s.current := by rw [ho.cell, current]
  have hfits {k : Handle} (hk : s.Fits k) : Fits { s with machine := m } k := by
    refine hk.later (fun t ht => ?_) (fun c x hx => hx) fun c x hd hx hne => hd
    simp only [runner, Runner.ticket, htickets]
    exact ⟨ht, trivial⟩
  refine { h with reached := ?_, cell := ?_, lines := ?_, seen := ?_, owned := ?_, owner := ?_, handles := ?_, turn := ?_,
                  marks := ?_, rights := ?_, block := ?_ }
  · show Reached base m.store.runner τ
    rw [hrunner]
    exact h.reached.equip wares steps
  · show m.cell < m.cells.size
    rw [ho.cell]
    exact Nat.lt_of_lt_of_le h.cell ho.cells
  · exact fun k hk => Nat.lt_of_lt_of_le (h.lines k hk) ho.cells
  · intro k c x hk hx hor
    have hlt : k < s.machine.cells.size := h.lines k fun hfree => by
      rw [show (s.line k).call? = none by rw [hfree]; rfl] at hk
      cases hk
    change k ≠ m.cell ∨ s.within = none at hor
    rw [ho.cell] at hor
    by_cases hcell : k = s.machine.cell
    · -- In the cell of the call's code, only a step that is open within it may replace the context.
      have hwithin := hor.resolve_left (not_not_intro hcell)
      rcases ho.scope with hfree | hopen | hscope
      · rw [hcell, show (s.line s.machine.cell).call? = none by rw [← current, hfree]; rfl] at hk
        cases hk
      · exact absurd hwithin hopen
      · have hfields : (m.scopeAt m.cell).fields = (s.machine.scopeAt s.machine.cell).fields := congrArg Scope.fields hscope
        show (m.scopeAt k).fields = x.context
        rw [hcell, ← ho.cell, hfields]
        exact h.seen _ c x (hcell ▸ hk) hx (.inr hwithin)
    · show (m.scopeAt k).fields = x.context
      rw [ho.others k hlt hcell]
      exact h.seen k c x hk hx (.inl hcell)
  · intro a ha c hc
    have ha' : a ∈ s.runner.stack := hstack ▸ ha
    exact hcurrent.trans (h.owned a ha' c hc)
  · intro i c hi
    show i < m.store.runner.runs.size
    rw [hruns]
    exact h.owner i c hi
  · intro k hk
    rcases ho.handles k hk with hold | hnew
    · exact hfits (h.handles k hold)
    · intro t f hcallback
      rw [hcallback] at hnew
      cases hnew
  · intro k o hturn
    obtain ⟨hcell, hlt, hk⟩ := h.turn k o hturn
    exact ⟨ho.cell.trans hcell, Nat.lt_of_lt_of_le hlt ho.cells, hfits hk⟩
  · intro c x hx
    obtain ⟨hmarks, hspan, hcell⟩ := h.marks c x hx
    exact ⟨hmarks, Nat.lt_of_lt_of_le hspan ho.spanIds, Nat.lt_of_lt_of_le hcell ho.cells⟩
  · intro c x hx
    obtain ⟨hlt, htoken⟩ := h.rights c x hx
    exact ⟨Nat.lt_of_lt_of_le hlt ho.tokens, (ho.held _ (.inr ⟨c, x, hx, rfl⟩)).trans htoken⟩
  · intro t ht
    obtain ⟨hlt, hne, c, x, previous, hcall, hx, hfields, htoken⟩ := h.block t ht
    refine ⟨Nat.lt_of_lt_of_le hlt ho.tokens, hne, c, x, previous, ?_, hx, hfields, ?_⟩
    · exact (congrArg Line.call? hcurrent).trans hcall
    · exact (ho.held t (.inl ht)).trans (htoken.trans (by rw [ho.cell]))

theorem enter {k : Handle} {rest : List Handle} (h : Sound base s τ) (hwithin : s.within = none) (hquiet : s.Quiet)
    (hready : s.machine.loop.ready = k :: rest) (hcell : k.cell < s.machine.cells.size) :
    Sound base (s.enter k rest) τ := by
  refine { h with cell := hcell, seen := ?_, owned := ?_, handles := ?_, turn := ?_, block := ?_ }
  · exact fun j c x hj hx _ => h.seen j c x hj hx (.inr hwithin)
  · intro a ha c hc
    cases (hquiet a ha).symm.trans hc
  · exact fun j hj => h.handles j (Loop.holds_ready hready hj)
  · intro j o hturn
    cases hturn
    exact ⟨rfl, h.cell, h.handles k (.inl (hready ▸ List.mem_cons_self))⟩
  · intro t ht
    cases hwithin.symm.trans ht

theorem leave {k : Handle} {outer : Nat} (h : Sound base s τ) (hturn : s.turn = some (k, outer)) (hwithin : s.within = none)
    (hquiet : s.Quiet) : Sound base (s.leave outer) τ := by
  refine { h with cell := (h.turn k outer hturn).2.1, seen := ?_, owned := ?_, turn := ?_, block := ?_ }
  · exact fun j c x hj hx _ => h.seen j c x hj hx (.inr hwithin)
  · intro a ha c hc
    cases (hquiet a ha).symm.trans hc
  · intro j o hturn
    cases hturn
  · intro t ht
    cases hwithin.symm.trans ht

/-! ### Moves of the runner -/

theorem goes (h : Sound base s τ) (a : Activation) (rest : List Activation) (hs : s.runner.stack = a :: rest) :
    s.runner.Goes a (· = a.run) :=
  Bench.goes_of_reached h.reached (hs ▸ List.mem_cons_self)

/-- What is on the stack after a move is of the run that the move is about, or was there before. -/
theorem mem_stack_react (h : Sound base s τ) {a : Activation} (ha : a ∈ (s.runner.react m).1.stack) :
    a.run = s.runner.subject m ∨ a ∈ s.runner.stack := by
  have hbelow {b : Activation} (hb : b ∈ s.runner.below m) : b ∈ s.runner.stack := by
    cases m with
    | start | next | settled => exact hb
    | found | returned | raised | watching => exact List.mem_of_mem_tail hb
  rcases Runner.onto_react h.goes m with hs | ⟨b, hb, hs⟩
  · exact .inr (hbelow (hs ▸ ha))
  · rw [hs] at ha
    rcases List.mem_cons.mp ha with rfl | ha
    · exact .inl hb
    · exact .inr (hbelow ha)

/-- A move that is about no run of a call, or comes in a line of that call. -/
theorem change_runner {o : Nat → Option Nat} (h : Sound base s τ) (hm : s.runner.Admits (τ.registry base) m)
    (howner : ∀ i < s.runner.runs.size, o i = s.owner i)
    (hold : ∀ i c, o i = some c → i < (s.runner.react m).1.runs.size)
    (hsubject : ∀ c, o (s.runner.subject m) = some c → s.current = .drives c) :
    Sound base { s.move m with owner := o } (τ ++ s.runner.deeds m) := by
  have hreached := h.reached.move hm
  have htables := (Runner.consistent_of_reached hreached).toTables
  have hfits {k : Handle} (hk : s.Fits k) : Fits { s.move m with owner := o } k := by
    refine hk.later (fun t ht => ?_) (fun c x hx => hx) fun c x hd hx hne => hd
    obtain ⟨ht', hrun⟩ := h.tables.run_eq htables ht
    refine ⟨ht', ?_⟩
    show o ((s.runner.react m).1.ticket t).run = _
    rw [hrun, howner _ (h.tables.ticket t ht).1]
  refine { h with reached := hreached, owned := ?_, owner := hold, handles := fun k hk => hfits (h.handles k hk), turn := ?_ }
  · intro a ha c hc
    rcases h.mem_stack_react ha with hrun | ha
    · exact hsubject c (hrun ▸ hc)
    · have hlt := h.tables.run_lt a ha
      exact h.owned a ha c ((howner _ hlt).symm.trans hc)
  · intro k outer hturn
    obtain ⟨hcell, hlt, hk⟩ := h.turn k outer hturn
    exact ⟨hcell, hlt, hfits hk⟩

theorem start {call : Option Nat} (h : Sound base s τ) (ware : Nat) (inputs : List Value) (done : Value)
    (hline : ∀ c, call = some c → s.current = .drives c) :
    Sound base (s.start call ware inputs done) (τ ++ s.runner.deeds (.start ware inputs done)) := by
  have htables := (Runner.consistent_of_reached (h.reached.move (.start ware inputs done))).toTables
  have hstarted : s.runner.runs.size < (s.runner.react (.start ware inputs done)).1.runs.size := by
    refine ((htables.started _ ware inputs done).mp (List.mem_append_right τ ?_)).1
    exact List.mem_append_left _ List.mem_cons_self
  refine h.change_runner (.start ware inputs done) (fun i hi => ?_) (fun i c hi => ?_) fun c hc => ?_
  · exact Function.update_of_ne (Nat.ne_of_lt hi) _ _
  · by_cases hne : i = s.runner.runs.size
    · exact hne ▸ hstarted
    · rw [Function.update_of_ne hne] at hi
      exact Nat.lt_trans (h.owner i c hi) hstarted
  · have hnew : Function.update s.owner s.runner.runs.size call s.runner.runs.size = some c := hc
    rw [Function.update_self] at hnew
    exact hline c hnew

/-- A move that can come is about no run of a call, or comes in a line of that call. -/
theorem subject_permitted (h : Sound base s τ) (hm : s.runner.Admits (τ.registry base) m) (hpermits : s.Permits m)
    (hc : s.owner (s.runner.subject m) = some c) : s.current = .drives c := by
  have htop {a : Activation} {rest : List Activation} (hs : s.runner.stack = a :: rest) (hanswers : m.answers = true) :
      s.current = .drives c := by
    rw [Runner.subject_of_answers hs hanswers] at hc
    exact h.owned a (hs ▸ List.mem_cons_self) c hc
  cases hm with
  | start | watching => exact hpermits.elim
  | next =>
    obtain ⟨-, a, ha, hrun⟩ := hpermits c hc
    exact h.owned a ha c hrun
  | settled =>
    obtain ⟨-, k, outer, hturn⟩ := hpermits c hc
    obtain ⟨hcell, -, hfits⟩ := h.turn _ outer hturn
    rw [current, hcell]
    exact ((hfits _ _ rfl).2 c hc).1
  | found hs | returned _ _ hs | raised _ hs => exact htop hs rfl

theorem move (h : Sound base s τ) (hm : s.runner.Admits (τ.registry base) m) (hpermits : s.Permits m) :
    Sound base (s.move m) (τ ++ s.runner.deeds m) :=
  h.change_runner hm (fun _ _ => rfl) (fun i c hi => Nat.lt_of_lt_of_le (h.owner i c hi) (Runner.sizes_react s.runner m).1)
    fun _ hc => h.subject_permitted hm hpermits hc

/-! ### New cells -/

/-- The machine with a new cell, which has a copy of the current context. -/
theorem scopeAt_push (m : Machine) (k : Nat) (l : Loop) :
    ({ m with cells := m.cells.push m.scope, loop := l } : Machine).scopeAt k =
      if k = m.cells.size then m.scope else m.scopeAt k := by
  simp only [Machine.scopeAt, Array.getD_eq_getD_getElem?, Array.getElem?_push]
  split <;> rfl

/-- A copy of the current context in a new cell is for nobody, or for the call whose code makes it. -/
theorem copy (h : Sound base s τ) {l : Loop} {line : Line} (hhandles : ∀ k, l.Holds k → s.machine.loop.Holds k ∨
      Fits { s with line := Function.update s.line s.machine.cells.size line } k)
    (hline : ∀ c, line.call? = some c → s.current = .drives c ∧ s.within = none) :
    Sound base { s with
      machine := { s.machine with cells := s.machine.cells.push s.machine.scope, loop := l }
      line := Function.update s.line s.machine.cells.size line } τ := by
  -- The new cell comes behind all others, and each of these is for whom it was.
  have hsize : (s.machine.cells.push s.machine.scope).size = s.machine.cells.size + 1 := Array.size_push _
  have hfree {k : Nat} (hk : s.machine.cells.size ≤ k) : s.line k = .free := by
    by_contra hne
    exact Nat.not_lt.mpr hk (h.lines k hne)
  have hsame {k : Nat} (hk : k ≠ s.machine.cells.size) :
      Function.update s.line s.machine.cells.size line k = s.line k := Function.update_of_ne hk _ _
  have hcell : s.machine.cell ≠ s.machine.cells.size := Nat.ne_of_lt h.cell
  have hcurrent : Function.update s.line s.machine.cells.size line s.machine.cell = s.current := hsame hcell
  have hopen {c : Nat} {x : Strand} (hx : s.calls c = some x)
      (hdrives : Function.update s.line s.machine.cells.size line x.cell = .drives c) : s.Open c x := by
    rw [hsame (Nat.ne_of_lt (h.marks c x hx).2.2)] at hdrives
    exact ⟨hx, hdrives⟩
  have hfits {k : Handle} (hk : s.Fits k) :
      Fits { s with line := Function.update s.line s.machine.cells.size line } k := by
    refine hk.later (fun t ht => ⟨ht, rfl⟩) (fun c x hx => hx) fun c x hd hx hne => ?_
    refine (hsame fun heq => ?_).trans hd
    rw [heq, hfree (Nat.le_refl _)] at hd
    cases hd
  refine { h with cell := ?_, lines := ?_, known := ?_, seen := ?_, owned := ?_, handles := ?_, turn := ?_, marks := ?_,
                  rights := ?_, block := ?_ }
  · exact hsize ▸ Nat.lt_succ_of_lt h.cell
  · intro k hk
    show k < (s.machine.cells.push s.machine.scope).size
    rw [hsize]
    by_cases hnew : k = s.machine.cells.size
    · exact hnew ▸ Nat.lt_succ_self _
    · exact Nat.lt_succ_of_lt (h.lines k fun hfree => hk ((hsame hnew).trans hfree))
  · intro k c hk
    change (Function.update s.line s.machine.cells.size line k).call? = some c at hk
    by_cases hnew : k = s.machine.cells.size
    · rw [hnew, Function.update_self] at hk
      exact h.known s.machine.cell c (by rw [← current, (hline c hk).1]; rfl)
    · rw [hsame hnew] at hk
      exact h.known k c hk
  · intro k c x hk hx hor
    change (Function.update s.line s.machine.cells.size line k).call? = some c at hk
    show (Machine.scopeAt { s.machine with cells := s.machine.cells.push s.machine.scope, loop := l } k).fields = x.context
    rw [scopeAt_push]
    by_cases hnew : k = s.machine.cells.size
    · rw [hnew, Function.update_self] at hk
      obtain ⟨hdrives, hwithin⟩ := hline c hk
      rw [if_pos hnew]
      exact h.scope_eq (by rw [hdrives]; rfl) hx hwithin
    · rw [hsame hnew] at hk
      rw [if_neg hnew]
      exact h.seen k c x hk hx hor
  · exact fun a ha c hc => hcurrent.trans (h.owned a ha c hc)
  · intro k hk
    rcases hhandles k hk with hold | hnew
    · exact hfits (h.handles k hold)
    · exact hnew
  · intro k o hturn
    obtain ⟨hk, ho, hturns⟩ := h.turn k o hturn
    exact ⟨hk, hsize ▸ Nat.lt_succ_of_lt ho, hfits hturns⟩
  · intro c x hx
    obtain ⟨hmarks, hspan, hlt⟩ := h.marks c x hx
    exact ⟨hmarks, hspan, hsize ▸ Nat.lt_succ_of_lt hlt⟩
  · exact fun c x hx => h.rights c x (hopen hx.1 hx.2)
  · intro t ht
    obtain ⟨hlt, hne, c, x, previous, hcall, hx, hfields, htoken⟩ := h.block t ht
    refine ⟨hlt, fun d y hy => hne d y (hopen hy.1 hy.2), c, x, previous, ?_, hx, hfields, htoken⟩
    exact (congrArg Line.call? hcurrent).trans hcall

theorem spawn {a : Activation} {rest : List Activation} (h : Sound base s τ) (coroutine : Nat)
    (hs : s.runner.stack = a :: rest) (hc : s.owner a.run = some c) (hwithin : s.within = none) :
    Sound base (s.spawn c coroutine) τ := by
  refine h.copy (fun k hk => ?_) fun d hd => ?_
  · refine (Loop.holds_newTask hk).imp_right fun hnew => ?_
    intro t f hcallback
    rw [hcallback] at hnew
    cases hnew
  · cases hd
    exact ⟨h.owned a (hs ▸ List.mem_cons_self) c hc, hwithin⟩

theorem await {a : Activation} {rest : List Activation} {t : Nat} (h : Sound base s τ) (f : Nat)
    (hs : s.runner.stack = a :: rest) (ha : a.wait = .settling t) (hwithin : s.owner a.run ≠ none → s.within = none) :
    Sound base (s.await a t f) (τ ++ s.runner.deeds (.watching f)) := by
  obtain ⟨ht, hrun⟩ := h.tables.waits a (hs ▸ List.mem_cons_self) t (.inr ha)
  have howned {c : Nat} (hc : s.owner a.run = some c) : s.current = .drives c :=
    h.owned a (hs ▸ List.mem_cons_self) c hc
  let line : Line := (s.owner a.run).elim .free .drives
  let l := s.machine.loop.watch f ⟨.settled t f, s.machine.cells.size⟩
  -- The callback is made in its cell, and then the runner is told of the future.
  have hmade : Sound base { s with
      machine := { s.machine with cells := s.machine.cells.push s.machine.scope, loop := l }
      line := Function.update s.line s.machine.cells.size line } τ := by
    refine h.copy (fun k hk => ?_) fun c hc => ?_
    · refine (Loop.holds_watch hk).imp_right ?_
      rintro rfl u g hcallback
      cases hcallback
      refine ⟨ht, fun c hc => ?_⟩
      have hc' : s.owner a.run = some c := hrun ▸ hc
      refine ⟨?_, ?_⟩
      · show Function.update s.line s.machine.cells.size line s.machine.cells.size = .drives c
        simp only [Function.update_self, line, hc', Option.elim_some]
      · obtain ⟨x, hx⟩ := h.known s.machine.cell c (by rw [← current, howned hc']; rfl)
        exact ⟨x, hx, Nat.ne_of_lt (h.marks c x hx).2.2⟩
    · cases ho : s.owner a.run with
      | none =>
        rw [show line = .free by simp only [line, ho, Option.elim_none]] at hc
        cases hc
      | some d =>
        rw [show line = .drives d by simp only [line, ho, Option.elim_some]] at hc
        cases hc
        exact ⟨howned ho, hwithin (by rw [ho]; exact Option.some_ne_none c)⟩
  refine hmade.change_runner (m := .watching f) (.watching f hs ha) (fun _ _ => rfl) (fun i c hi => ?_) fun c hc => ?_
  · exact Nat.lt_of_lt_of_le (h.owner i c hi) (Runner.sizes_react s.runner (.watching f)).1
  · have hsubject : s.runner.subject (.watching f) = a.run := Runner.subject_of_answers hs rfl
    have hc' : s.owner a.run = some c := hsubject ▸ hc
    exact hmade.owned a (hs ▸ List.mem_cons_self) c hc'

/-! ### Timed steps -/

theorem process {processor : Value} (h : Sound base s τ) (path : Value) (parsed : Bool) (hfree : s.current = .free)
    (hwithin : s.within = none) (hc : s.calls c = none) (hprocessor : processor ≠ .null) :
    Sound base (s.process c processor path parsed) τ := by
  let m := s.machine
  let y := Strand.new m processor path parsed
  have hquiet : s.Quiet := h.quiet fun d hd => by cases hfree.symm.trans hd
  have hline {k : Nat} (hk : k ≠ m.cell) : (s.process c processor path parsed).line k = s.line k :=
    Function.update_of_ne hk _ _
  have hhere : (s.process c processor path parsed).line m.cell = .drives c := Function.update_self _ _ _
  have hcalls {d : Nat} {x : Strand} (hx : s.calls d = some x) : (s.process c processor path parsed).calls d = some x := by
    refine (Function.update_of_ne (fun hd => ?_) _ _).trans hx
    cases (hd ▸ hx).symm.trans hc
  have hnew : (s.process c processor path parsed).calls c = some y := Function.update_self _ _ _
  have hcalls_cases {d : Nat} {x : Strand} (hx : (s.process c processor path parsed).calls d = some x) :
      (d = c ∧ x = y) ∨ (d ≠ c ∧ s.calls d = some x) := by
    by_cases hd : d = c
    · rw [hd, hnew] at hx
      exact .inl ⟨hd, (Option.some.inj hx).symm⟩
    · exact .inr ⟨hd, (Function.update_of_ne hd _ _).symm.trans hx⟩
  have hfits {k : Handle} (hk : s.Fits k) : (s.process c processor path parsed).Fits k := by
    refine hk.later (fun t ht => ⟨ht, rfl⟩) (fun d x hx => hcalls hx) fun d x hd hx hne => ?_
    refine (hline fun heq => ?_).trans hd
    rw [heq] at hd
    cases hfree.symm.trans hd
  have hcells : (s.process c processor path parsed).machine.cells.size = m.cells.size := m.size_cells_begun _ _
  have htokens : (s.process c processor path parsed).machine.store.tokens.size = m.store.tokens.size + 1 :=
    m.size_tokens_begun _ _
  refine ⟨h.reached, ?_, ?_, ?_, ?_, ?_, h.owner, fun k hk => hfits (h.handles k hk), ?_, ?_, ?_, ?_, ?_, ?_⟩
  · exact hcells ▸ h.cell
  · intro k hk
    rw [hcells]
    by_cases heq : k = m.cell
    · exact heq ▸ h.cell
    · exact h.lines k fun hk' => hk ((hline heq).trans hk')
  · intro k d hk
    by_cases heq : k = m.cell
    · rw [heq, hhere] at hk
      cases hk
      exact ⟨y, hnew⟩
    · rw [hline heq] at hk
      obtain ⟨x, hx⟩ := h.known k d hk
      exact ⟨x, hcalls hx⟩
  · intro k d x hk hx hor
    show ((m.begun _ _).scopeAt k).fields = x.context
    rw [Machine.scopeAt_begun h.cell]
    by_cases heq : k = m.cell
    · rw [heq, hhere] at hk
      cases hk
      rw [hnew] at hx
      cases hx
      rw [if_pos heq]
      rfl
    · rw [hline heq] at hk
      rw [if_neg heq]
      obtain ⟨x', hx'⟩ := h.known k d hk
      cases (hcalls hx').symm.trans hx
      exact h.seen k d x hk hx' (.inl heq)
  · intro a ha d hd
    cases (hquiet a ha).symm.trans hd
  · intro k o hturn
    obtain ⟨hk, ho, hturns⟩ := h.turn k o hturn
    exact ⟨hk, hcells ▸ ho, hfits hturns⟩
  · intro d x hx
    rw [hcells]
    rcases hcalls_cases hx with ⟨-, rfl⟩ | ⟨-, hx⟩
    · exact ⟨Strand.marks_new m hprocessor path parsed, Nat.lt_succ_self _, h.cell⟩
    · obtain ⟨hmarks, hspan, hlt⟩ := h.marks d x hx
      exact ⟨hmarks, Nat.lt_succ_of_lt hspan, hlt⟩
  · -- The span of the new call is numbered above those of all others.
    intro d e x z hx hz heq
    rcases hcalls_cases hx with ⟨rfl, rfl⟩ | ⟨-, hold⟩ <;> rcases hcalls_cases hz with ⟨rfl, rfl⟩ | ⟨-, hold'⟩
    · rfl
    · exact absurd heq (Nat.ne_of_gt (h.marks e z hold').2.1)
    · exact absurd heq (Nat.ne_of_lt (h.marks d x hold).2.1)
    · exact h.spans_ne d e x z hold hold' heq
  · rintro d x ⟨hx, hdrives⟩
    rcases hcalls_cases hx with ⟨-, rfl⟩ | ⟨hd, hx⟩
    · exact ⟨htokens ▸ Nat.lt_succ_self _, m.token_begun _ _⟩
    · have hcell : x.cell ≠ m.cell := fun heq => by
        rw [heq, hhere] at hdrives
        exact hd (Line.drives.inj hdrives).symm
      obtain ⟨hlt, htoken⟩ := h.rights d x ⟨hx, (hline hcell).symm.trans hdrives⟩
      exact ⟨htokens ▸ Nat.lt_succ_of_lt hlt, (Machine.token_begun_of_lt _ _ hlt).trans htoken⟩
  · intro t ht
    cases hwithin.symm.trans ht
  · intro p hp
    obtain ⟨x, hx, hparent⟩ := h.spans p hp
    exact ⟨x, hcalls hx, hparent⟩

/-- The span that is above one that is opened in a line of a call is that of the call. -/
theorem mem_spans (h : Sound base s τ) (hcall : s.current.call? = some c) (hwithin : s.within = none) (event : Value)
    (values : Table Value) : ∀ p ∈ (s.span c event values).spans, ∃ x, s.calls p.1 = some x ∧ p.2 = .spanId x.span := by
  intro p hp
  rcases List.mem_cons.mp hp with rfl | hp
  · obtain ⟨x, hx⟩ := h.known _ c hcall
    refine ⟨x, hx, ?_⟩
    show s.machine.scope.fields.spanId = _
    rw [h.scope_eq hcall hx hwithin, (h.marks c x hx).1.span]
  · exact h.spans p hp

/-- What opening a timed step leaves as it is. -/
theorem rights_begun (h : Sound base s τ) (event : Value) (values : Table Value) (hx : s.Open c x) :
    x.token < (s.machine.begun event values).store.tokens.size ∧
      (s.machine.begun event values).store.tokens.getD x.token default = ⟨x.cell, x.before, false⟩ := by
  obtain ⟨hlt, htoken⟩ := h.rights c x hx
  rw [Machine.size_tokens_begun]
  exact ⟨Nat.lt_succ_of_lt hlt, (Machine.token_begun_of_lt _ _ hlt).trans htoken⟩

theorem marks_begun (h : Sound base s τ) (event : Value) (values : Table Value) (hx : s.calls c = some x) :
    x.Marks x.context ∧ x.span < (s.machine.begun event values).spanIds ∧
      x.cell < (s.machine.begun event values).cells.size := by
  obtain ⟨hmarks, hspan, hcell⟩ := h.marks c x hx
  rw [Machine.size_cells_begun]
  exact ⟨hmarks, Nat.lt_succ_of_lt hspan, hcell⟩

theorem enclose (h : Sound base s τ) (event : Value) (values : Table Value) (hcall : s.current.call? = some c)
    (hwithin : s.within = none) : Sound base (s.enclose c event values) τ := by
  let m := s.machine
  have hcells : (m.begun event values).cells.size = m.cells.size := m.size_cells_begun _ _
  obtain ⟨x, hx⟩ := h.known m.cell c hcall
  refine { h with cell := hcells ▸ h.cell, lines := fun k hk => hcells ▸ h.lines k hk, seen := ?_, turn := ?_,
                  marks := fun d y hy => h.marks_begun event values hy,
                  rights := fun d y hy => h.rights_begun event values hy, block := ?_,
                  spans := h.mem_spans hcall hwithin event values }
  · intro k d y hk hy hor
    rcases hor with hne | hopen
    · have hne' : k ≠ m.cell := hne
      show ((m.begun event values).scopeAt k).fields = y.context
      rw [Machine.scopeAt_begun h.cell, if_neg hne']
      exact h.seen k d y hk hy (.inl hne')
    · cases hopen
  · intro k o hturn
    obtain ⟨hk, ho, hturns⟩ := h.turn k o hturn
    exact ⟨hk, hcells ▸ ho, hturns⟩
  · intro t ht
    obtain rfl : m.store.tokens.size = t := Option.some.inj ht
    refine ⟨?_, fun d y hy => Nat.ne_of_lt (h.rights d y hy).1, c, x, m.scope, hcall, hx, ?_, m.token_begun _ _⟩
    · show _ < (m.begun event values).store.tokens.size
      rw [Machine.size_tokens_begun]
      exact Nat.lt_succ_self _
    · exact h.scope_eq hcall hx hwithin

theorem disclose {t : Nat} (h : Sound base s τ) (ht : s.within = some t) : Sound base (s.disclose t) τ := by
  let m := s.machine
  have hcells : (m.restored t).cells.size = m.cells.size := m.size_cells_restored _
  obtain ⟨-, hne, c, x, previous, hcall, hx, hfields, htoken⟩ := h.block t ht
  refine { h with cell := hcells ▸ h.cell, lines := fun k hk => hcells ▸ h.lines k hk, seen := ?_, turn := ?_,
                  marks := ?_, rights := ?_, block := ?_ }
  · intro k d y hk hy _
    show ((m.restored t).scopeAt k).fields = y.context
    rw [Machine.scopeAt_restored h.cell]
    by_cases heq : k = m.cell
    · have hk' : (s.line m.cell).call? = some d := heq ▸ hk
      obtain rfl : c = d := Option.some.inj (hcall.symm.trans hk')
      cases hx.symm.trans hy
      rw [if_pos heq, htoken]
      exact hfields
    · rw [if_neg heq]
      exact h.seen k d y hk hy (.inl heq)
  · intro k o hturn
    obtain ⟨hk, ho, hturns⟩ := h.turn k o hturn
    exact ⟨hk, hcells ▸ ho, hturns⟩
  · intro d y hy
    obtain ⟨hmarks, hspan, hlt⟩ := h.marks d y hy
    exact ⟨hmarks, hspan, hcells ▸ hlt⟩
  · intro d y hy
    obtain ⟨hlt, hright⟩ := h.rights d y hy
    exact ⟨(m.size_tokens_restored t).symm ▸ hlt, (Machine.token_restored_of_ne (hne d y hy).symm).trans hright⟩
  · intro u hu
    cases hu

/-- When the current cell is for no call any more, all else is as it was. -/
theorem release {m : Machine} {spans : List (Nat × Value)} (h : Sound base s τ) (hquiet : s.Quiet)
    (hwithin : s.within = none) (hrunner : m.store.runner = s.runner) (hloop : m.loop = s.machine.loop)
    (hcell : m.cell = s.machine.cell) (hcells : m.cells.size = s.machine.cells.size)
    (hspanIds : s.machine.spanIds ≤ m.spanIds)
    (hscope : ∀ k, k ≠ s.machine.cell → m.scopeAt k = s.machine.scopeAt k)
    (hcallbacks : ∀ c x, s.current = .drives c → s.calls c = some x → x.cell = s.machine.cell)
    (hrights : ∀ c x, s.Open c x → x.cell ≠ s.machine.cell → x.token < m.store.tokens.size ∧
      m.store.tokens.getD x.token default = ⟨x.cell, x.before, false⟩)
    (hspans : ∀ p ∈ spans, ∃ x, s.calls p.1 = some x ∧ p.2 = .spanId x.span) :
    Sound base { s with machine := m, line := Function.update s.line s.machine.cell .free, spans := spans } τ := by
  let s' : Strands := { s with machine := m, line := Function.update s.line s.machine.cell .free, spans := spans }
  have hline {k : Nat} (hk : k ≠ s.machine.cell) : s'.line k = s.line k := Function.update_of_ne hk _ _
  have hhere : s'.line s.machine.cell = .free := Function.update_self _ _ _
  have hne {k : Nat} (hk : s'.line k ≠ .free) : k ≠ s.machine.cell := fun heq => hk (heq ▸ hhere)
  -- A cell that is for a call is another one than the cell that was released.
  have hne_of_call {k d : Nat} (hk : (s'.line k).call? = some d) : k ≠ s.machine.cell := hne fun hfree => by
    rw [hfree] at hk
    cases hk
  have hfits {k : Handle} (hk : s.Fits k) : s'.Fits k := by
    refine hk.later (fun t ht => ?_) (fun d x hx => hx) fun d x hd hx hne => ?_
    · show t < m.store.runner.tickets.size ∧ s.owner (m.store.runner.ticket t).run = _
      rw [hrunner]
      exact ⟨ht, rfl⟩
    · refine (hline fun heq => hne ?_).trans hd
      rw [heq] at hd ⊢
      exact hcallbacks d x hd hx
  refine ⟨?_, ?_, ?_, ?_, ?_, ?_, ?_, ?_, ?_, ?_, h.spans_ne, ?_, ?_, hspans⟩
  · show Reached base m.store.runner τ
    rw [hrunner]
    exact h.reached
  · show m.cell < m.cells.size
    rw [hcell, hcells]
    exact h.cell
  · intro k hk
    show k < m.cells.size
    rw [hcells]
    exact h.lines k (hline (hne hk) ▸ hk)
  · intro k d hk
    exact h.known k d (hline (hne_of_call hk) ▸ hk)
  · intro k d x hk hx _
    have hk' := hne_of_call hk
    show (m.scopeAt k).fields = x.context
    rw [hscope k hk']
    exact h.seen k d x (hline hk' ▸ hk) hx (.inl hk')
  · intro a ha d hd
    have ha' : a ∈ s.runner.stack := hrunner ▸ ha
    cases (hquiet a ha').symm.trans hd
  · intro i d hi
    show i < m.store.runner.runs.size
    rw [hrunner]
    exact h.owner i d hi
  · intro k hk
    have hk' : s.machine.loop.Holds k := hloop ▸ hk
    exact hfits (h.handles k hk')
  · intro k o hturn
    obtain ⟨hk, ho, hturns⟩ := h.turn k o hturn
    exact ⟨hcell.trans hk, hcells.symm ▸ ho, hfits hturns⟩
  · intro d x hx
    obtain ⟨hmarks, hspan, hlt⟩ := h.marks d x hx
    exact ⟨hmarks, Nat.lt_of_lt_of_le hspan hspanIds, hcells.symm ▸ hlt⟩
  · rintro d x ⟨hx, hdrives⟩
    have hx' : x.cell ≠ s.machine.cell := hne (by rw [hdrives]; exact Line.noConfusion)
    exact hrights d x ⟨hx, hline hx' ▸ hdrives⟩ hx'
  · intro t ht
    cases hwithin.symm.trans ht

theorem depart (h : Sound base s τ) (event : Value) (values : Table Value) (hcall : s.current = .awaits c)
    (hwithin : s.within = none) : Sound base (s.depart c event values) τ := by
  have hawaits : ∀ d, s.current ≠ .drives d := fun d hd => by cases hcall.symm.trans hd
  have hcells := s.machine.size_cells_begun event values
  refine h.release (h.quiet hawaits) hwithin rfl rfl rfl hcells (Nat.le_succ _) ?_ ?_ ?_ ?_
  · intro k hk
    show (s.machine.begun event values).scopeAt k = s.machine.scopeAt k
    rw [Machine.scopeAt_begun h.cell, if_neg hk]
  · exact fun d x hd => absurd hd (hawaits d)
  · exact fun d x hx _ => h.rights_begun event values hx
  · exact h.mem_spans (by rw [hcall]; rfl) hwithin event values

theorem conclude (h : Sound base s τ) (hx : s.Open c x) (hcell : s.machine.cell = x.cell) (hwithin : s.within = none)
    (hquiet : s.Quiet) : Sound base (s.conclude x) τ := by
  have hdrives : s.current = .drives c := (congrArg s.line hcell).trans hx.2
  refine h.release hquiet hwithin rfl rfl rfl (s.machine.size_cells_restored _) (Nat.le_refl _) ?_ ?_ ?_ h.spans
  · intro k hk
    rw [Machine.scopeAt_restored h.cell, if_neg hk]
  · intro d y hd hy
    obtain rfl : c = d := Line.drives.inj (hdrives.symm.trans hd)
    cases hx.1.symm.trans hy
    exact hcell.symm
  · intro d y hy hne
    have hother : c ≠ d := by
      rintro rfl
      cases hx.1.symm.trans hy.1
      exact hne hcell.symm
    obtain ⟨hlt, htoken⟩ := h.rights d y hy
    exact ⟨(s.machine.size_tokens_restored x.token).symm ▸ hlt,
      (Machine.token_restored_of_ne (h.token_ne hx hy hother)).trans htoken⟩

/-- The invariant is kept by whatever happens. -/
theorem step (h : Sound base s τ) (hstep : Step base s τ s' τ') : Sound base s' τ' := by
  cases hstep with
  | register ware step => exact h.register ware step
  | outside ho => exact h.outside ho
  | enter _ hwithin hquiet hready hcell => exact h.enter hwithin hquiet hready hcell
  | leave hturn hwithin hquiet => exact h.leave hturn hwithin hquiet
  | start call ware inputs done hline => exact h.start ware inputs done fun c hc => (hline c hc).1
  | move hm hpermits => exact h.move hm hpermits
  | await f hs ha hwithin => exact h.await f hs ha hwithin
  | spawn coroutine hs _ hc hwithin => exact h.spawn coroutine hs hc hwithin
  | process c processor path parsed hfree hwithin hc hprocessor => exact h.process path parsed hfree hwithin hc hprocessor
  | enclose event values hcall hwithin => exact h.enclose event values hcall hwithin
  | disclose ht => exact h.disclose ht
  | depart event values hcall hwithin => exact h.depart event values hcall hwithin
  | conclude hx hcell hwithin hquiet => exact h.conclude hx hcell hwithin hquiet

end Sound

theorem sound_of_kept (h : Kept base s τ) : Sound base s τ := by
  induction h with
  | begin hruns htickets hstack hcell hhandles => exact .begin hruns htickets hstack hcell hhandles
  | step _ hstep ih => exact ih.step hstep

/-- Calls that are in flight at once, in whatever order their parts come and however their steps complete: each span that
was opened in a line of a call is below the span of that call, and no two calls have the same; code of a call, its settle
callbacks and the coroutines that it waits for are in cells of that call, and see a context with its processor and its
span; and when its task closes its step, however the call has ended, the context there is the one of before the call. -/
theorem spans_stay_apart (h : Kept base s τ) :
    (∀ p ∈ s.spans, ∃ x, s.calls p.1 = some x ∧ p.2 = .spanId x.span) ∧
    (∀ c d x y, s.calls c = some x → s.calls d = some y → x.span = y.span → c = d) ∧
    (∀ a ∈ s.runner.stack, ∀ c, s.owner a.run = some c →
      ∃ x, s.calls c = some x ∧ s.current = .drives c ∧ (s.within = none → x.Marks s.machine.scope.fields)) ∧
    (∀ t f k c, s.machine.loop.Holds ⟨.settled t f, k⟩ → s.owner (s.runner.ticket t).run = some c → s.line k = .drives c) ∧
    (∀ k c, (s.line k).call? = some c →
      ∃ x, s.calls c = some x ∧ (k ≠ s.machine.cell ∨ s.within = none → x.Marks (s.machine.scopeAt k).fields)) ∧
    ∀ c x, s.Open c x → s.machine.cell = x.cell → ∀ σ, Frame.contexts.serves σ → ∀ step : OpenStep, step.token = x.token →
      ∀ result : Except Value Value, (Work.closeStep step result σ s.machine).1 ≠ .spent →
        (Work.closeStep step result σ s.machine).2.scope = x.before := by
  have hsound := sound_of_kept h
  have hmarks {k c : Nat} (hk : (s.line k).call? = some c) : ∃ x, s.calls c = some x ∧
      (k ≠ s.machine.cell ∨ s.within = none → x.Marks (s.machine.scopeAt k).fields) := by
    obtain ⟨x, hx⟩ := hsound.known k c hk
    exact ⟨x, hx, fun hor => (hsound.seen k c x hk hx hor).symm ▸ (hsound.marks c x hx).1⟩
  refine ⟨hsound.spans, hsound.spans_ne, fun a ha c hc => ?_, fun t f k c hk hc => ?_, fun k c hk => hmarks hk, ?_⟩
  · have hdrives := hsound.owned a ha c hc
    have hcall : (s.line s.machine.cell).call? = some c := by rw [← current, hdrives]; rfl
    obtain ⟨x, hx, hseen⟩ := hmarks hcall
    exact ⟨x, hx, hdrives, fun hwithin => hseen (.inr hwithin)⟩
  · exact ((hsound.handles _ hk t f rfl).2 c hc).1
  · intro c x hx hcell σ hσ step htoken result hends
    obtain ⟨hlt, hright⟩ := hsound.rights c x hx
    rw [← htoken, ← hcell] at hright
    exact Work.closeStep_scope hσ hsound.cell (htoken ▸ hlt) hright result hends

instance (s : Strands) : Decidable s.Quiet := inferInstanceAs (Decidable (∀ a ∈ s.runner.stack, s.owner a.run = none))

/-- A machine with two tasks and one step. -/
def twoTasks : Strands where
  machine := { (default : Machine) with
    store := { (default : Store) with
      runner := ⟨#[.new .null (.list 0) none], #[⟨.function 0, .str "step", some 0, some 0, false, []⟩], #[], #[], []⟩ }
    loop := ((Loop.empty.newTask 0 1).2.newTask 1 2).2
    cells := #[⟨0, .empty⟩, ⟨0, .empty⟩, ⟨0, .empty⟩] }
  line _ := .free
  owner _ := none
  calls _ := none
  spans := []
  within := none
  turn := none

/-- Each of two tasks begins a call and runs its step. That of the first gives a coroutine, and that of the second gives the
future of the task in which the coroutine is run. -/
def twoCalls : Strands :=
  let s := (twoTasks.enter ⟨.advance 0 none, 1⟩ [⟨.advance 1 none, 2⟩]).process 0 (.str "alpha") .null false
  let s := ((s.start (some 0) 0 [] (.hook .bail)).move (.found (some 0))).move (.returned (.coroutine 2) true)
  let s := ((s.spawn 0 2).await ⟨0, true, .settling 0⟩ 0 2).leave 0
  let s := (s.enter ⟨.advance 1 none, 2⟩ [⟨.advance 2 none, 3⟩]).process 1 (.str "beta") .null false
  let s := ((s.start (some 1) 0 [] (.hook .bail)).move (.found (some 0))).move (.returned (.future 2) true)
  (s.await ⟨1, true, .settling 1⟩ 1 2).leave 0

/-- The coroutine opens a step and its task ends with an error. The settle callback of the first call tells its run, whose
callback opens a step and closes it; then that of the second call opens a step. -/
def bothTold : Strands :=
  let s := (twoCalls.enter ⟨.advance 2 none, 3⟩ []).depart 0 (.str "processor.parse") []
  let s := ({ s with machine := { s.machine with loop := s.machine.loop.settle 2 (.error (.fault 0)) } } : Strands).leave 0
  let s := (s.enter ⟨.settled 0 2, 4⟩ [⟨.settled 1 2, 5⟩]).move (.settled 0 2 (some (.fault 0)))
  let s := (s.enclose 0 (.str "processor.stringify") []).disclose 3
  let s := ((s.move (.returned .null false)).leave 0).enter ⟨.settled 1 2, 5⟩ []
  s.enclose 1 (.str "processor.stringify") []

theorem kept_twoTasks : Kept (fun _ => [0]) twoTasks [] := by
  refine .begin rfl rfl rfl (by decide) fun h hh => ?_
  rcases Loop.holds_newTask hh with hh | hnew
  · rcases Loop.holds_newTask hh with hh | hnew
    · rcases hh with hready | ⟨i, hi⟩
      · cases hready
      · rw [Loop.future_empty] at hi
        cases hi
    · exact hnew
  · exact hnew

theorem kept_twoCalls : ∃ τ, Kept (fun _ => [0]) twoCalls τ := by
  have hbegun := (kept_twoTasks.step (.enter (h := ⟨.advance 0 none, 1⟩) rfl rfl (by decide) rfl (by decide))).step
    (.process 0 (.str "alpha") .null false rfl rfl rfl (by decide))
  have hgiven := ((hbegun.step (.start (some 0) 0 [] (.hook .bail) fun c hc => ⟨by cases hc; rfl, rfl⟩)).step
    (.move (m := .found (some 0)) (by decide) fun _ _ _ => rfl)).step
    (.move (m := .returned (.coroutine 2) true) (by decide) fun _ _ _ => rfl)
  have hwatched := ((hgiven.step (.spawn 2 rfl rfl rfl rfl)).step (.await 2 rfl rfl fun _ => rfl)).step
    (.leave rfl rfl (by decide))
  have hbegun' := (hwatched.step (.enter (h := ⟨.advance 1 none, 2⟩) rfl rfl (by decide) rfl (by decide))).step
    (.process 1 (.str "beta") .null false rfl rfl rfl (by decide))
  have hgiven' := ((hbegun'.step (.start (some 1) 0 [] (.hook .bail) fun c hc => ⟨by cases hc; rfl, rfl⟩)).step
    (.move (m := .found (some 0)) (by decide) fun _ _ _ => rfl)).step
    (.move (m := .returned (.future 2) true) (by decide) fun _ _ _ => rfl)
  exact ⟨_, (hgiven'.step (.await 2 rfl rfl fun _ => rfl)).step (.leave rfl rfl (by decide))⟩

/-- A future that ends is an outside step. -/
theorem outside_settle (s : Strands) (f : Nat) (ending : Ending) :
    s.Outside { s.machine with loop := s.machine.loop.settle f ending } where
  runner := ⟨_, _, rfl⟩
  cell := rfl
  cells := Nat.le_refl _
  others _ _ _ := rfl
  scope := .inr (.inr rfl)
  spanIds := Nat.le_refl _
  tokens := Nat.le_refl _
  held _ _ := rfl
  handles h hh := .inl ((Loop.calm_settle s.machine.loop f ending).holds h hh)

theorem spans_stay_apart_bothTold : (∃ τ, Kept (fun _ => [0]) bothTold τ) ∧
    bothTold.spans = [(1, .spanId 1), (0, .spanId 0), (0, .spanId 0)] ∧
    (∃ x, bothTold.calls 1 = some x ∧ x.processor = .str "beta" ∧ x.span = 1) ∧
    ∃ x, bothTold.calls 0 = some x ∧ x.processor = .str "alpha" ∧ x.Marks (bothTold.machine.scopeAt 4).fields := by
  obtain ⟨τ, htwo⟩ := kept_twoCalls
  have hparses := (htwo.step (.enter (h := ⟨.advance 2 none, 3⟩) rfl rfl (by decide) rfl (by decide))).step
    (.depart (c := 0) (.str "processor.parse") [] rfl rfl)
  have hended := (hparses.step (.outside (outside_settle _ 2 (.error (.fault 0))))).step (.leave rfl rfl (by decide))
  have htold := (hended.step (.enter (h := ⟨.settled 0 2, 4⟩) rfl rfl (by decide) rfl (by decide))).step
    (.move (m := .settled 0 2 (some (.fault 0))) (.settled 2 (by decide) (by decide)) fun c hc => ⟨rfl, 4, 0, rfl⟩)
  have hclosed := (htold.step (.enclose (c := 0) (.str "processor.stringify") [] rfl rfl)).step (.disclose rfl)
  have hleft := (hclosed.step (.move (.returned .null false rfl (by decide)) fun _ _ _ => rfl)).step
    (.leave rfl rfl (by decide))
  have hkept := (hleft.step (.enter (h := ⟨.settled 1 2, 5⟩) rfl rfl (by decide) rfl (by decide))).step
    (.enclose (c := 1) (.str "processor.stringify") [] rfl rfl)
  obtain ⟨-, -, -, -, hmarks, -⟩ := spans_stay_apart hkept
  obtain ⟨x, hx, hseen⟩ := hmarks 4 0 rfl
  refine ⟨⟨_, hkept⟩, rfl, ⟨_, rfl, rfl, rfl⟩, x, hx, ?_, hseen (.inl (by decide))⟩
  cases hx
  rfl

end Strands
end Treeworks
