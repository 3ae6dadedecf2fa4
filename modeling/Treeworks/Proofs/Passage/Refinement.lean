import Treeworks.Proofs.Passage.Chores
import Treeworks.Proofs.Passage.Transformers

/-! A passage that is alone does what its stages do one after the other: whatever happens to it, what is left of the plain
sequence goes on where the passage stands, and ends as the passage does. -/
namespace Treeworks
variable {site : Site} {c : Nat} {p : Passage} {parked : Value} {g g' : Traffic} {k l : Call} {τ υ : History}
  {w : Walk Value} {m : Move} {i t u n : Nat} {e : Option Value} {x : Value}

/-- A passage that nothing is pending for is not between two stages. -/
theorem Site.Traced.not_between (h : site.Traced c g k τ) (hpending : g.pending = none) (hchore : k.chore = .none)
    (hpast : Past k τ n) : ¬τ.Going k.run n := by
  have hpoised := h.poised
  rw [hpending] at hpoised
  generalize hs : g.runner.stack = stack at hpoised
  cases hpoised with
  | nothing => exact h.not_going h.outer_run.1 (by simp [hs])
  | @step i u drives rest hfirm hi =>
    rcases Nat.lt_or_ge n 2 with hn | hn
    · have hnone := hpast.before (Nat.le_of_lt_succ hn)
      rw [hi] at hnone
      cases hnone
    · obtain ⟨done, inputs, hreports⟩ := hpast.after hn i hi
      exact absurd rfl (h.finished i done inputs hi hreports ⟨i, drives, .step u⟩ (by rw [hs]; exact List.mem_cons_self)
        rfl u)
  | compiling drives hfirm hcompiling =>
    rw [hchore] at hcompiling
    cases hcompiling

/-- A tree that is parked from outside is there for the rest of the stages. -/
theorem Stands.park (h : Stands site c k τ none w) (htraced : site.Traced c g k τ) (hpending : g.pending = none)
    (hending : k.ending = none) (hdue : k.chore.isDue = false) (tree : Value) :
    ∀ rs acc, w (.parked tree :: rs) acc = w rs { acc with slot := tree } := by
  cases h with
  | between _ hgoing hchore _ hpast => exact absurd hgoing (htraced.not_between hpending hchore hpast)
  | parse _ hchore | parsed _ hchore | compiled _ hchore =>
    rw [hchore] at hdue
    cases hdue
  | parsing | resting | transforming | compiling => exact fun rs acc => rfl
  | ended _ _ hover =>
    rw [hending] at hover
    cases hover

namespace Seated

/-- A tree is parked on the file. -/
theorem park (h : Seated site c p parked g k τ) (hpending : g.pending = none) (hending : k.ending = none)
    (hdue : k.chore.isDue = false) (tree : Value) : ∃ l υ, Seated site c p parked (g.put c { k with
      account := { k.account with slot := tree }
      responses := k.responses ++ [.parked tree] }) l υ := by
  obtain ⟨w, hstands, hw⟩ := h.stands
  rw [Traffic.demand_of_none hpending] at hstands
  have htraced := h.traced.put (l := { k with
      account := { k.account with slot := tree }
      responses := k.responses ++ [.parked tree] }) g.pending rfl rfl rfl rfl (h.traced.poised.mono rfl rfl rfl)
  refine htraced.seated (w := w) ?_ ?_
  · have hput : ∀ l, (g.put c l).demand = none := fun l => Traffic.demand_of_none hpending
    rw [hput]
    exact hstands.known k.starting (k.responses ++ [.parked tree]) { k.account with slot := tree }
  · intro rs
    rw [List.append_assoc, hw]
    exact hstands.park h.traced hpending hending hdue tree rs k.account

/-- A transformer is registered. -/
theorem register (h : Seated site c p parked g k τ) (hpending : g.pending = none) {s : Nat}
    (hs : (site.runner.step s).callee.isHook = false) :
    ∃ l υ, Seated site c p parked { g with registry := g.registry ++ [s] } l υ := by
  obtain ⟨w, hstands, hw⟩ := h.stands
  rw [Traffic.demand_of_none hpending] at hstands
  refine (h.traced.register hs).seated (w := w) ?_ hw
  have hdemand : ({ g with registry := g.registry ++ [s] } : Traffic).demand = none := Traffic.demand_of_none hpending
  rw [hdemand]
  exact hstands.append (fun j => rfl) (fun j => rfl) (fun j u n _ => rfl) k.starting k.responses k.account

/-- The transformers that were invoked are those of the run of the transformers. -/
theorem mem_tickets (h : Seated site c p parked g k τ) {place : Nat} (hget : k.tickets[place]? = some t) :
    ∃ i, k.inner = some i ∧ t ∈ τ.tickets i := by
  have htickets := h.traced.tickets
  cases hinner : k.inner with
  | none =>
    rw [hinner] at htickets
    rw [htickets] at hget
    cases hget
  | some i =>
    rw [hinner] at htickets
    rw [htickets] at hget
    exact ⟨i, rfl, List.mem_of_getElem? hget⟩

/-- A continuation of a transformer is called. While the compiler is at work it has been called before. -/
theorem next (h : Seated site c p parked g k τ) (hpending : g.pending = none) {place : Nat}
    (hget : k.tickets[place]? = some t) (hnull : e ≠ some .null) (hfault : ∀ x, e = some x → x.isFault = true) :
    ∃ l υ, Seated site c p parked (g.move c k (.next t e)) l υ := by
  obtain ⟨i, hi, ht⟩ := h.mem_tickets hget
  obtain ⟨hlt, hrun⟩ := h.traced.consistent.ticket_of_mem ht
  have hdemand : g.demand = none := Traffic.demand_of_none hpending
  have hpoised := h.traced.poised
  rw [hpending] at hpoised
  generalize hs : g.runner.stack = stack at hpoised
  cases hpoised with
  | nothing =>
    refine h.signal hdemand hi ht (.next g.runner t e) ?_ hfault
    rw [Runner.below, hs]
    simp
  | step drives hfirm _ =>
    refine h.signal hdemand hi ht (.next g.runner t e) ?_ hfault
    rw [Runner.below, hs]
    exact hfirm
  | compiling drives hfirm hchore hcallee hgiven =>
    obtain ⟨w, hstands, hw⟩ := h.stands
    rw [hdemand] at hstands
    have hcompiling := hstands.chore
    rw [hchore] at hcompiling
    obtain ⟨-, -, hpast, -⟩ := hcompiling
    have hcalled : (g.runner.ticket t).called = true := by
      by_contra hcalled
      obtain ⟨j, ho⟩ := h.traced.consistent.open_of_uncalled hlt (Bool.eq_false_iff.mpr hcalled)
      rw [hrun] at ho
      exact hpast.reported i hi ho.unreported
    obtain ⟨starting, htraced⟩ := h.traced.again hlt hcalled hnull hpending
    refine htraced.seated (w := w) ?_ hw
    rw [Traffic.demand_move ((Runner.Completes.next g.runner t e).again hcalled).1]
    exact hstands.append (fun j => rfl) (fun j => rfl) (h.traced.signalled hcalled e) starting k.responses k.account

/-- The future of a transformer settles. -/
theorem settle (h : Seated site c p parked g k τ) (hidle : g.Idle) {place : Nat} (hget : k.tickets[place]? = some t)
    (hfault : ∀ x, e = some x → x.isFault = true) (future : Nat) :
    ∃ l υ, Seated site c p parked (g.move c k (.settled t future e)) l υ := by
  obtain ⟨i, hi, ht⟩ := h.mem_tickets hget
  obtain ⟨hlt, -⟩ := h.traced.consistent.ticket_of_mem ht
  refine h.signal (Traffic.demand_of_none hidle.2) hi ht (.settled g.runner t future e) ?_ hfault
  rw [Runner.below, hidle.1]
  simp

/-- The transformer that is being invoked is the topmost activation. -/
theorem invoking (h : Seated site c p parked g k τ) (hpending : g.pending = none)
    (hinvoking : k.isInvoking g.runner = true) : ∃ i drives t rest, g.runner.stack = ⟨i, drives, .step t⟩ :: rest ∧
      k.inner = some i ∧ (∀ a ∈ rest, Firm g.runner k a) ∧ t ∈ τ.tickets i := by
  have hpoised := h.traced.poised
  rw [hpending] at hpoised
  generalize hs : g.runner.stack = stack at hpoised
  rw [Call.isInvoking, hs] at hinvoking
  cases hpoised with
  | nothing => cases hinvoking
  | @step i t drives rest hfirm hi =>
    refine ⟨i, drives, t, rest, rfl, hi, fun a ha => hfirm a (List.mem_cons_of_mem _ ha), ?_⟩
    have hwaits := h.traced.consistent.waits ⟨i, drives, .step t⟩ (by rw [hs]; exact List.mem_cons_self) t (.inl rfl)
    have hmem := (h.traced.consistent.ticket t hwaits.1).2.1
    rw [hwaits.2] at hmem
    exact List.mem_map_of_mem hmem
  | compiling drives hfirm hchore =>
    exact absurd rfl (h.traced.inner k.run (of_decide_eq_true hinvoking)).1

/-- A transformer that is being invoked returns. -/
theorem returns (h : Seated site c p parked g k τ) (hpending : g.pending = none)
    (hinvoking : k.isInvoking g.runner = true) (v : Value) (awaitable : Bool) :
    ∃ l υ, Seated site c p parked (g.move c k (.returned v awaitable)) l υ := by
  obtain ⟨i, drives, t, rest, hs, hi, hfirm, ht⟩ := h.invoking hpending hinvoking
  have hdemand : g.demand = none := Traffic.demand_of_none hpending
  have hbelow : ∀ a ∈ g.runner.below (.returned v awaitable), Firm g.runner k a := by
    rw [Runner.below, hs]
    exact hfirm
  have hadmits : g.runner.Admits (τ.registry site.base) (.returned v awaitable) := .returned v awaitable hs (by simp)
  cases hgiven : (g.runner.ticket t).given with
  | true => exact h.silent hdemand hadmits rfl rfl (Runner.quiet_returned_given hs hgiven) hbelow
  | false =>
    by_cases hends : v.isFault = true ∨ awaitable = false
    · refine h.signal hdemand hi ht (.returned hs hgiven hends) hbelow ?_
      intro x hx
      unfold Runner.errorOf at hx
      split at hx
      case isTrue hv =>
        cases hx
        exact hv
      case isFalse => cases hx
    · obtain ⟨hv, hawaitable⟩ := not_or.mp hends
      obtain rfl : awaitable = true := (Bool.not_eq_false _).mp hawaitable
      obtain ⟨hd, hdeeds⟩ := Runner.quiet_returned_awaitable hs hgiven (Bool.eq_false_iff.mpr hv)
      exact h.silent hdemand hadmits rfl rfl ⟨by rw [hd]; rfl, hdeeds⟩ hbelow

/-- A transformer that is being invoked, and has not completed, raises an error. -/
theorem raises (h : Seated site c p parked g k τ) (hpending : g.pending = none)
    (hinvoking : k.isInvoking g.runner = true) (hfresh : g.runner.isFresh = true) (hx : x.isFault = true) :
    ∃ l υ, Seated site c p parked (g.move c k (.raised x true)) l υ := by
  obtain ⟨i, drives, t, rest, hs, hi, hfirm, ht⟩ := h.invoking hpending hinvoking
  have hcalled : (g.runner.ticket t).called = false := by
    rw [Runner.isFresh, hs] at hfresh
    exact (Bool.not_eq_true' _).mp hfresh
  have hnull : x ≠ .null := by
    rintro rfl
    cases hx
  refine h.signal (Traffic.demand_of_none hpending) hi ht (.raised hs hcalled x) ?_ ?_
  · rw [Runner.below, hs]
    exact hfirm
  · rintro y ⟨⟩
    exact hx

/-- What the library has to do is done. -/
theorem attend (h : Seated site c p parked g k τ) {d : Directive} (hpending : g.pending = some d) {a : Activation}
    {rest : List Activation} (hs : g.runner.stack = a :: rest) {future : Nat}
    (hg : site.attend g c k future a d = some g') : ∃ l υ, Seated site c p parked g' l υ := by
  have hpoised := h.traced.poised
  rw [hpending, hs] at hpoised
  cases d with
  | seek steps index =>
    cases hg
    have hdemand : g.demand = none := Traffic.demand_of_quiet hpending rfl
    cases hpoised with
    | seek steps index i hfirm =>
      have hmem : ⟨i, true, .seeking⟩ ∈ g.runner.stack := by
        rw [hs]
        exact List.mem_cons_self
      rcases h.traced.runs i (h.traced.consistent.run_lt _ hmem) with rfl | hi
      · exact h.findStage hdemand hs hfirm
      · exact h.findTransformer hdemand hi hs hfirm
  | invoke step args context => exact h.invoke hpending hs future hg
  | await v =>
    cases hg
    exact h.await hpending future
  | call done args =>
    obtain ⟨w, hstands, -⟩ := h.stands
    rw [Traffic.demand, hpending] at hstands
    cases hstands with
    | told =>
      cases hg
      exact h.callNext hpending
    | reporting =>
      cases hg
      exact h.callFinish hpending
  | leave =>
    cases hg
    exact h.leave hpending
  | fail e => cases hpoised

/-- Whatever happens that is fair, what is left of the plain sequence goes on where the passage stands. -/
theorem happen (h : Seated site c p parked g k τ) {happening : Happening} (hfair : site.fair g k happening = true)
    (hg : site.happen g c k happening = some g') : ∃ l υ, Seated site c p parked g' l υ := by
  unfold Site.happen at hg
  split at hg
  case h_1 _ future =>
    split at hg
    case h_1 d a rest hpending hs =>
      rw [if_pos (h.traced.isActive hs)] at hg
      exact h.attend hpending hs hg
    case h_2 => cases hg
  -- The parser begins, and gives a tree.
  case h_2 t hchore =>
    split at hg
    case isTrue hidle =>
      cases hg
      exact h.beginParse hidle hchore
    case isFalse => cases hg
  case h_3 tree t hchore =>
    split at hg
    case isTrue hidle =>
      cases hg
      exact h.endParse hidle hchore tree
    case isFalse => cases hg
  -- The compiler gives a result or an awaitable, or fails.
  case h_4 v awaitable t hchore =>
    split at hg
    case isTrue hturn =>
      cases awaitable with
      | true =>
        cases hg
        exact h.awaitCompile hturn hchore
      | false =>
        cases hg
        exact h.compile hturn hchore v
    case isFalse => cases hg
  case h_5 x t hchore =>
    split at hg
    case isTrue hturn =>
      cases hg
      simp only [Site.fair, Bool.and_eq_true] at hfair
      obtain ⟨hordinary, hx⟩ := hfair
      rw [hordinary]
      exact h.failCompile hturn.1 hchore hx
    case isFalse => cases hg
  case h_6 v t hchore =>
    split at hg
    case isTrue hidle =>
      cases hg
      exact h.endCompile hidle hchore v
    case isFalse => cases hg
  -- A coroutine fails.
  case h_7 x t hchore =>
    split at hg
    case isTrue hidle =>
      cases hg
      exact h.breakDown hidle.1 (.inl hchore) hfair
    case isFalse => cases hg
  case h_8 x t hchore =>
    split at hg
    case isTrue hidle =>
      cases hg
      exact h.breakDown hidle.1 (.inr hchore) hfair
    case isFalse => cases hg
  case h_9 future t e hchore =>
    split at hg
    case isTrue hidle =>
      cases hg
      exact h.conclude hidle hchore future
    case isFalse => cases hg
  case h_10 _ tree =>
    split at hg
    case isTrue hfree =>
      cases hg
      simp only [Site.fair, Bool.and_eq_true, Option.isNone_iff_eq_none, Bool.not_eq_true'] at hfair
      exact h.park (hfree.elim (·.2) (·.1)) hfair.1 hfair.2 tree
    case isFalse => cases hg
  -- A transformer signals a completion, returns or raises an error.
  case h_11 _ place e =>
    split at hg
    case h_1 t hget =>
      split at hg
      case isTrue hfree =>
        cases hg
        refine h.next (hfree.1.elim (·.2) (·.1)) hget hfree.2 ?_
        rintro x rfl
        exact hfair
      case isFalse => cases hg
    case h_2 => cases hg
  case h_12 _ place future e =>
    split at hg
    case h_1 t hget =>
      split at hg
      case isTrue hidle =>
        cases hg
        refine h.settle hidle.1 hget ?_ future
        rintro x rfl
        exact hfair
      case isFalse => cases hg
    case h_2 => cases hg
  case h_13 _ v awaitable =>
    split at hg
    case isTrue hturn =>
      cases hg
      exact h.returns hturn.1.1 hturn.2 v awaitable
    case isFalse => cases hg
  case h_14 _ x =>
    split at hg
    case isTrue hturn =>
      cases hg
      simp only [Site.fair, Bool.and_eq_true] at hfair
      obtain ⟨⟨hordinary, hx⟩, hfresh⟩ := hfair
      rw [hordinary]
      exact h.raises hturn.1.1 hturn.2.1 hfresh hx
    case isFalse => cases hg
  case h_15 => cases hg

/-- What is pending can always be done. -/
theorem isSome_attend (h : Seated site c p parked g k τ) (hpending : g.pending ≠ none) (future : Nat) :
    (site.step g (.own c (.attend future))).isSome = true := by
  obtain ⟨d, hd⟩ := Option.ne_none_iff_exists'.mp hpending
  have hpoised := h.traced.poised
  rw [hd] at hpoised
  generalize hs : g.runner.stack = stack at hpoised
  have hstep {a : Activation} {rest : List Activation} (hs : g.runner.stack = a :: rest) :
      site.step g (.own c (.attend future)) = site.attend g c k future a d := by
    simp only [Site.step, h.traced.call, Site.happen, hd, hs]
    exact if_pos (h.traced.isActive hs)
  cases hpoised with
  | seek | await | leave =>
    rw [hstep hs]
    rfl
  | invoke args context =>
    obtain ⟨n, t, hdue, hstepOf⟩ := h.due hd
    obtain ⟨rest, hs', -⟩ := hdue.stack
    rw [hstep hs', hstepOf]
    exact hdue.isSome_attend args context future
  | call done args hfirm ha =>
    rw [hstep hs]
    obtain ⟨w, hstands, -⟩ := h.stands
    rw [Traffic.demand, hd] at hstands
    cases hstands with
    | told => rfl
    | reporting => rfl

/-- What follows the beginning of a passage, and is fair, leaves the plain sequence where the passage stands. -/
theorem after {σ : List Event} (h : Seated site c p parked g k τ) (hσ : ∀ e ∈ σ, e.follows c = true)
    (hfair : site.fairly c g σ = true) (hg : site.after g σ = some g') : ∃ l υ, Seated site c p parked g' l υ := by
  induction σ generalizing g k τ with
  | nil =>
    cases hg
    exact ⟨k, τ, h⟩
  | cons e σ ih =>
    obtain ⟨g₁, hstep, hrest⟩ := Option.bind_eq_some_iff.mp hg
    simp only [Site.fairly, hstep, Bool.and_eq_true] at hfair
    obtain ⟨hevent, hfair⟩ := hfair
    have hfollows := hσ e List.mem_cons_self
    have hseated : ∃ l υ, Seated site c p parked g₁ l υ := by
      cases e with
      | begin => cases hfollows
      | register s =>
        simp only [Site.step] at hstep
        split at hstep
        case isTrue hplain =>
          cases hstep
          exact h.register hplain.1 ((Bool.not_eq_true' _).mp hplain.2)
        case isFalse => cases hstep
      | own d happening =>
        obtain rfl : d = c := of_decide_eq_true hfollows
        rw [h.traced.call] at hevent
        simp only [Site.step, h.traced.call] at hstep
        exact h.happen hevent hstep
    obtain ⟨l, υ, hl⟩ := hseated
    exact ih hl (fun e he => hσ e (List.mem_cons_of_mem _ he)) hfair hrest

/-- When the library has nothing to do, the plain sequence has taken all that has come back, has done what the passage
has done, and has come as far. -/
theorem walk_eq (h : Seated site c p parked g k τ) (hpending : g.pending = none) (hdue : k.chore.isDue = false) :
    site.stages c p 0 k.responses ⟨[], parked⟩ = (k.status, [], k.account) := by
  obtain ⟨w, hstands, hw⟩ := h.stands
  rw [Traffic.demand_of_none hpending] at hstands
  have hstatus : k.status = .ofEnding k.passage.result k.ending := by
    rw [Call.status, Call.outcome, h.traced.crash]
  rw [← List.append_nil k.responses, hw]
  cases hstands with
  | between _ hgoing hchore _ hpast => exact absurd hgoing (h.traced.not_between hpending hchore hpast)
  | parse _ hchore | parsed _ hchore | compiled _ hchore =>
    rw [hchore] at hdue
    cases hdue
  | parsing _ _ hending | resting _ _ hending | transforming _ _ hending | compiling _ _ hending =>
    rw [hstatus, hending]
    rfl
  | @ended e _ _ hending =>
    rw [hstatus, hending]
    cases e with
    | none => rfl
    | some x => rfl

/-- When nothing is under way, a passage has ended, or a coroutine of it has not, or a transformer has not completed. -/
theorem ended (h : Seated site c p parked g k τ) (hidle : g.Idle) (hending : k.outcome = none) :
    k.chore ≠ .none ∨ ∃ t ∈ k.tickets, (g.runner.ticket t).called = false := by
  obtain ⟨w, hstands, -⟩ := h.stands
  rw [Traffic.demand_of_none hidle.2] at hstands
  cases hstands with
  | between _ hgoing hchore _ hpast => exact absurd hgoing (h.traced.not_between hidle.2 hchore hpast)
  | parse _ hchore | parsing _ hchore | parsed _ hchore | compiled _ hchore =>
    rw [hchore]
    exact .inl (by simp)
  | compiling _ hchore =>
    rcases hchore with hchore | hchore
    · rw [hchore]
      exact .inl (by simp)
    · rw [hchore]
      exact .inl (by simp)
  | @resting t i n tree _ _ _ _ hstarted hgoing =>
    have hquiet : ∀ a ∈ g.runner.stack, a.run ≠ i := by
      simp [hidle.1]
    exact absurd hgoing (h.traced.not_going (h.traced.inner_run hstarted).1 hquiet)
  | @transforming t i u n tree _ _ _ hi _ ho =>
    refine .inr ⟨u, ?_, (h.traced.consistent.ticket_of_open ho).2.2⟩
    rw [h.traced.tickets, hi]
    exact ho.mem_tickets
  | ended _ _ hover =>
    rw [Call.outcome, h.traced.crash, hover] at hending
    cases hending

end Seated
/-- A passage that begins alone stands before its first stage. -/
theorem seated_begin {settings value file : Value} (hg : site.step site.initial (.begin c settings value file parked) = some g) :
    ∃ k τ, Seated site c (Passage.ofValue site.processor settings value file) parked g k τ := by
  obtain ⟨-, hmove⟩ := Option.ite_none_right_eq_some.mp hg
  cases hmove
  obtain ⟨hquiet, -⟩ := Runner.quiet_start site.runner 0 [.passage c] (.hook (.finish c c))
  obtain ⟨starting, htraced⟩ := site.traced_begin c (file :: site.initial.files) (k :=
    ⟨Passage.ofValue site.processor settings value file, ⟨[], parked⟩, site.runner.runs.size, none, [], .none, true, [],
      none, none⟩) rfl rfl rfl rfl
  refine htraced.seated (w := site.stages c (Passage.ofValue site.processor settings value file) 0) ?_ fun rs => rfl
  rw [Traffic.demand_move hquiet]
  refine .between (Nat.zero_le 3) ?_ rfl rfl ⟨fun _ => rfl, fun hn => absurd hn (by decide)⟩
  have hbegin : Reached site.base site.runner [] := .begin site.runs_eq site.tickets_eq site.stack_eq
  exact (Runner.consistent_of_reached hbegin).going_start _ _ _

/-- A text is parsed, its tree goes through the transformer, which calls its continuation later, and what the compiler
gives is awaited. -/
def awaited : List Event :=
  Site.attends 0 3 ++ [.own 0 .parse, .own 0 (.parsed (.list 8)), .own 0 (.concluded 0)] ++ Site.attends 0 3 ++
    [.own 0 (.returned .null false)] ++ Site.attends 0 1 ++ [.own 0 (.next 0 none)] ++ Site.attends 0 4 ++
    [.own 0 (.compiled (.coroutine 5) true)] ++ Site.attends 0 2 ++
    [.own 0 (.resulted (.str "out")), .own 0 (.concluded 1)] ++ Site.attends 0 2

end Treeworks
