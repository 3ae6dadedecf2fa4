import Treeworks.Proofs.Passage.Stages

/-! The coroutines of a passage that is alone, and its compiler: a file is parsed, a tree is compiled, and what comes of
it is concluded. -/
namespace Treeworks
variable {site : Site} {c : Nat} {p : Passage} {parked : Value} {g g' : Traffic} {k l : Call} {τ υ : History}
  {w : Walk Value} {m : Move} {i t u n : Nat} {e : Option Value} {x : Value}

/-- Where a passage stands that has a coroutine, or whose compiler is at work. -/
theorem Stands.chore (h : Stands site c k τ none w) :
    match k.chore with
    | .none => True
    | .parse t => τ.Open k.run t 0 ∧ k.ending = none ∧ k.inner = none ∧ w = (do
        let tree ← Walk.parse k.passage.file k.passage.settings
        site.runThenStringify c k.passage tree : Walk Value)
    | .parsing t => τ.Open k.run t 0 ∧ k.ending = none ∧ k.inner = none ∧ w = (do
        let tree ← Walk.result
        Walk.park tree
        site.runThenStringify c k.passage tree : Walk Value)
    | .compiling t | .settling t => τ.Open k.run t 2 ∧ k.ending = none ∧ Past k τ 2 ∧ w = Walk.result
    | .ended t e => k.ending = none ∧ (∀ x, e = some x → x.isFault = true) ∧
        ((τ.Open k.run t 0 ∧ k.inner = none ∧ w = Walk.after e (site.stages c k.passage 1)) ∨
          (τ.Open k.run t 2 ∧ Past k τ 2 ∧ w = Walk.after e (site.stages c k.passage 3))) := by
  cases h with
  | between _ _ hchore | resting _ hchore | transforming _ hchore | ended _ hchore =>
    rw [hchore]
    trivial
  | parse ho hchore hending hinner =>
    rw [hchore]
    exact ⟨ho, hending, hinner, rfl⟩
  | parsing ho hchore hending hinner =>
    rw [hchore]
    exact ⟨ho, hending, hinner, rfl⟩
  | parsed ho hchore hending hinner hfault =>
    rw [hchore]
    exact ⟨hending, hfault, .inl ⟨ho, hinner, rfl⟩⟩
  | compiling ho hchore hending hpast =>
    rcases hchore with hchore | hchore
    · rw [hchore]
      exact ⟨ho, hending, hpast, rfl⟩
    · rw [hchore]
      exact ⟨ho, hending, hpast, rfl⟩
  | compiled ho hchore hending hpast hfault =>
    rw [hchore]
    exact ⟨hending, hfault, .inr ⟨ho, hpast, rfl⟩⟩

namespace Seated

/-- The parser is called. -/
theorem beginParse (h : Seated site c p parked g k τ) (hidle : g.Idle) (hchore : k.chore = .parse t) :
    ∃ l υ, Seated site c p parked (g.put c { k with
      chore := .parsing t
      account := { k.account with errands := k.account.errands ++ [.parse k.passage.file k.passage.settings] } }) l υ := by
  obtain ⟨w, hstands, hw⟩ := h.stands
  rw [Traffic.demand_of_none hidle.2] at hstands
  have hparse := hstands.chore
  rw [hchore] at hparse
  obtain ⟨ho, hending, hinner, rfl⟩ := hparse
  refine h.traced.seated_put hidle rfl rfl rfl rfl (w := do
    let tree ← Walk.result
    Walk.park tree
    site.runThenStringify c k.passage tree) ?_ ?_
  · apply Stands.parsing
    · exact ho
    · rfl
    · exact hending
    · exact hinner
  · intro rs
    rw [hw]
    exact Walk.parse_bind k.passage.file k.passage.settings _

/-- The parser gives a tree. -/
theorem endParse (h : Seated site c p parked g k τ) (hidle : g.Idle) (hchore : k.chore = .parsing t) (tree : Value) :
    ∃ l υ, Seated site c p parked (g.put c { k with
      chore := .ended t none
      passage := { k.passage with tree := tree }
      account := { k.account with slot := tree }
      responses := k.responses ++ [.gave tree] }) l υ := by
  obtain ⟨w, hstands, hw⟩ := h.stands
  rw [Traffic.demand_of_none hidle.2] at hstands
  have hparsing := hstands.chore
  rw [hchore] at hparsing
  obtain ⟨ho, hending, hinner, rfl⟩ := hparsing
  refine h.traced.seated_put hidle rfl rfl rfl rfl
    (w := Walk.after none (site.stages c { k.passage with tree := tree } 1)) ?_ ?_
  · apply Stands.parsed
    · exact ho
    · rfl
    · exact hending
    · exact hinner
    · simp
  · intro rs
    rw [List.append_assoc, hw]
    rfl

/-- What the compiler gave settles. -/
theorem endCompile (h : Seated site c p parked g k τ) (hidle : g.Idle) (hchore : k.chore = .settling t) (v : Value) :
    ∃ l υ, Seated site c p parked (g.put c { k with
      chore := .ended t none
      passage := { k.passage with result := v }
      responses := k.responses ++ [.gave v] }) l υ := by
  obtain ⟨w, hstands, hw⟩ := h.stands
  rw [Traffic.demand_of_none hidle.2] at hstands
  have hsettling := hstands.chore
  rw [hchore] at hsettling
  obtain ⟨ho, hending, hpast, rfl⟩ := hsettling
  refine h.traced.seated_put hidle rfl rfl rfl rfl
    (w := Walk.after none (site.stages c { k.passage with result := v } 3)) ?_ ?_
  · apply Stands.compiled
    · exact ho
    · rfl
    · exact hending
    · exact ⟨hpast.before, hpast.after⟩
    · simp
  · intro rs
    rw [List.append_assoc, hw]
    rfl

/-- A coroutine ends with an error. -/
theorem breakDown (h : Seated site c p parked g k τ) (hidle : g.Idle) (hchore : k.chore = .parsing t ∨ k.chore = .settling t)
    (hx : x.isFault = true) : ∃ l υ, Seated site c p parked (g.put c { k with
      chore := .ended t (some x)
      responses := k.responses ++ [.failed x] }) l υ := by
  obtain ⟨w, hstands, hw⟩ := h.stands
  rw [Traffic.demand_of_none hidle.2] at hstands
  have hworking := hstands.chore
  rcases hchore with hchore | hchore
  · rw [hchore] at hworking
    obtain ⟨ho, hending, hinner, rfl⟩ := hworking
    refine h.traced.seated_put hidle rfl rfl rfl rfl
      (w := Walk.after (some x) (site.stages c k.passage 1)) ?_ ?_
    · apply Stands.parsed
      · exact ho
      · rfl
      · exact hending
      · exact hinner
      · rintro y ⟨⟩
        exact hx
    · intro rs
      rw [List.append_assoc, hw]
      rfl
  · rw [hchore] at hworking
    obtain ⟨ho, hending, hpast, rfl⟩ := hworking
    refine h.traced.seated_put hidle rfl rfl rfl rfl
      (w := Walk.after (some x) (site.stages c k.passage 3)) ?_ ?_
    · apply Stands.compiled
      · exact ho
      · rfl
      · exact hending
      · exact ⟨hpast.before, hpast.after⟩
      · rintro y ⟨⟩
        exact hx
    · intro rs
      rw [List.append_assoc, hw]
      rfl

/-- What has become of a coroutine is the completion of its stage. -/
theorem conclude (h : Seated site c p parked g k τ) (hidle : g.Idle) (hchore : k.chore = .ended t e) (future : Nat) :
    ∃ l υ, Seated site c p parked (g.move c { k with chore := .none } (.settled t future e)) l υ := by
  obtain ⟨w, hstands, hw⟩ := h.stands
  rw [Traffic.demand_of_none hidle.2] at hstands
  have hended := hstands.chore
  rw [hchore] at hended
  obtain ⟨hending, hfault, hended⟩ := hended
  have hbelow : ∀ a ∈ g.runner.below (.settled t future e), Firm g.runner k a := by
    intro a ha
    rw [Runner.below, hidle.1] at ha
    cases ha
  rcases hended with ⟨ho, hinner, rfl⟩ | ⟨ho, hpast, rfl⟩
  · refine h.traced.conclude ho (.settled g.runner t future e) hbelow hfault rfl rfl rfl
      rfl rfl hending ?_ ?_ hw
    · intro _
      exact ⟨fun _ => hinner, fun hn => absurd hn (by decide)⟩
    · intro i hi
      rw [hinner] at hi
      cases hi
  · refine h.traced.conclude ho (.settled g.runner t future e) hbelow hfault rfl rfl rfl
      rfl rfl hending ?_ ?_ hw
    · intro _
      exact ⟨fun hn => absurd hn (by decide), fun _ => hpast.after (Nat.le_refl 2)⟩
    · exact hpast.reported

/-- The compiler is at work in the topmost activation, which is that of the third stage. -/
theorem compiler (h : Seated site c p parked g k τ) (hturn : g.Turn k) (hchore : k.chore = .compiling t) :
    ∃ drives rest, g.runner.stack = ⟨k.run, drives, .step t⟩ :: rest ∧ (∀ a ∈ rest, Firm g.runner k a) ∧
      (g.runner.ticket t).given = false ∧ τ.Open k.run t 2 ∧ k.ending = none ∧ Past k τ 2 ∧
      ∀ rs, site.stages c p 0 (k.responses ++ rs) ⟨[], parked⟩ = Walk.result rs k.account := by
  obtain ⟨hpending, hactive⟩ := hturn
  obtain ⟨w, hstands, hw⟩ := h.stands
  rw [Traffic.demand_of_none hpending] at hstands
  have hcompiling := hstands.chore
  rw [hchore] at hcompiling
  obtain ⟨ho, hending, hpast, rfl⟩ := hcompiling
  have hpoised := h.traced.poised
  rw [hpending] at hpoised
  generalize hs : g.runner.stack = stack at hpoised
  cases hpoised with
  | nothing => simp [Call.isActive, hs] at hactive
  | @step i u drives rest hfirm hi =>
    -- The transformers have ended without an error, so none of them is being invoked.
    obtain ⟨done, inputs, hreports⟩ := hpast.after (Nat.le_refl 2) i hi
    have hnone := h.traced.finished i done inputs hi hreports ⟨i, drives, .step u⟩ (by rw [hs]; exact List.mem_cons_self)
      rfl u
    exact absurd rfl hnone
  | @compiling u drives rest hfirm hchore' hcallee hgiven =>
    rw [hchore] at hchore'
    cases hchore'
    exact ⟨drives, rest, rfl, hfirm, hgiven, ho, hending, hpast, hw⟩

/-- The compiler gives an awaitable, which is waited for. -/
theorem awaitCompile (h : Seated site c p parked g k τ) (hturn : g.Turn k) (hchore : k.chore = .compiling t) :
    ∃ l υ, Seated site c p parked (g.move c { k with chore := .settling t } (.returned (.coroutine c) true)) l υ := by
  obtain ⟨drives, rest, hs, hfirm, hgiven, ho, hending, hpast, hw⟩ := h.compiler hturn hchore
  obtain ⟨hd, hdeeds⟩ := Runner.quiet_returned_awaitable (v := .coroutine c) hs hgiven rfl
  refine h.traced.silent (.returned _ _ hs (by simp)) rfl rfl ⟨by rw [hd]; rfl, hdeeds⟩ ?_ rfl rfl rfl rfl
    (w := Walk.result) ?_ hw
  · intro a ha
    rw [Runner.below, hs] at ha
    exact hfirm a ha
  · intro starting
    apply Stands.compiling
    · exact ho
    · exact .inr rfl
    · exact hending
    · exact ⟨hpast.before, hpast.after⟩

/-- The compiler gives a result at once. -/
theorem compile (h : Seated site c p parked g k τ) (hturn : g.Turn k) (hchore : k.chore = .compiling t) (v : Value) :
    ∃ l υ, Seated site c p parked (g.move c { k with
      chore := .none
      passage := { k.passage with result := v }
      responses := k.responses ++ [.gave v] } (.returned .null false)) l υ := by
  obtain ⟨drives, rest, hs, hfirm, hgiven, ho, hending, hpast, hw⟩ := h.compiler hturn hchore
  have hm : g.runner.Completes (.returned .null false) t none := .returned hs hgiven (.inr rfl)
  refine h.traced.conclude ho hm ?_ (by simp) rfl rfl rfl rfl rfl hending ?_ ?_ ?_
  · intro a ha
    rw [Runner.below, hs] at ha
    exact hfirm a ha
  · intro _
    exact ⟨fun hn => absurd hn (by decide), fun _ => hpast.after (Nat.le_refl 2)⟩
  · exact hpast.reported
  · intro rs
    rw [List.append_assoc, hw]
    rfl

/-- The compiler fails. -/
theorem failCompile (h : Seated site c p parked g k τ) (hturn : g.Turn k) (hchore : k.chore = .compiling t)
    (hx : x.isFault = true) : ∃ l υ, Seated site c p parked (g.move c { k with
      chore := .none
      responses := k.responses ++ [.failed x] } (.raised x true)) l υ := by
  obtain ⟨drives, rest, hs, hfirm, hgiven, ho, hending, hpast, hw⟩ := h.compiler hturn hchore
  obtain ⟨-, -, hcalled⟩ := h.traced.consistent.ticket_of_open ho
  have hnull : x ≠ .null := by
    rintro rfl
    cases hx
  refine h.traced.conclude ho (.raised hs hcalled x) ?_ ?_ rfl rfl rfl rfl rfl hending (by simp) ?_ ?_
  · intro a ha
    rw [Runner.below, hs] at ha
    exact hfirm a ha
  · rintro y ⟨⟩
    exact hx
  · exact hpast.reported
  · intro rs
    rw [List.append_assoc, hw]
    rfl

end Seated
end Treeworks
