import Treeworks.Proofs.Passage.Accord

/-! Passages in flight at the same time do not interfere: of what happens to all of them, that which happens to one can
happen to it alone, and then leads to the same. -/
namespace Treeworks

/-- A runner goes on doing alike what another does, when only what has no names changes. -/
theorem Runner.Alike.frame {n m : Names} {o r s : Runner} (h : Runner.Alike n o s) (hkeeps : Runner.Keeps m o r)
    (hrun : ∀ i j, n.run i j → ∀ j', ¬m.run i j') (hticket : ∀ t u, n.ticket t u → ∀ u', ¬m.ticket t u') :
    Runner.Alike n r s where
  steps := hkeeps.steps.trans h.steps
  wares := by
    intro w
    obtain ⟨hsteps, hcontext⟩ := hkeeps.wares w
    rw [hsteps, hcontext]
    exact h.wares w
  run := by
    intro i j hij
    obtain ⟨hi, hj, halike⟩ := h.run i j hij
    rw [hkeeps.run i hi (hrun i j hij)]
    exact ⟨Nat.lt_of_lt_of_le hi hkeeps.runs_size, hj, halike⟩
  ticket := by
    intro t u htu
    obtain ⟨ht, hu, halike⟩ := h.ticket t u htu
    rw [hkeeps.ticket t ht (hticket t u htu)]
    exact ⟨Nat.lt_of_lt_of_le ht hkeeps.tickets_size, hu, halike⟩
  run_inj := h.run_inj
  ticket_inj := h.ticket_inj

/-- The passages of a traffic, each of which has a traffic of its own in which it has come equally far. No run and no
ticket is of two passages. What is under way is so for one passage; in the traffics of the others nothing is. -/
structure Mirrors (n : Nat → Names) (g : Traffic) (a : Nat → Traffic) : Prop where
  alike : ∀ c, Runner.Alike (n c) g.runner (a c).runner
  registry : ∀ c, g.registry = (a c).registry
  files : ∀ c, ∀ f ∈ (a c).files, f ∈ g.files
  call : ∀ c, Option.Rel (n c).Call (g.calls c) ((a c).calls c)
  run_apart : ∀ c d i j j', (n c).run i j → (n d).run i j' → c = d
  ticket_apart : ∀ c d t u u', (n c).ticket t u → (n d).ticket t u' → c = d
  under_way : ∃ c, List.Forall₂ (n c).Activation g.runner.stack (a c).runner.stack ∧
    Option.Rel (n c).Directive g.pending (a c).pending ∧ ∀ d, d ≠ c → (a d).Idle

/-- It can be the turn of a passage: nothing is under way, or something of its own. -/
def Traffic.Open (g : Traffic) (c : Nat) : Prop := g.Idle ∨ ∃ k, g.calls c = some k ∧ k.isActive g.runner = true

theorem Event.isOf_unique (e : Event) {c d : Nat} (hc : e.isOf c = true) (hd : e.isOf d = true) : c = d := by
  cases e with
  | begin | own => exact (of_decide_eq_true hc).symm.trans (of_decide_eq_true hd)
  | register => cases hc

/-- What happens to a passage happens when it can be its turn. -/
theorem Site.open_of_happen (site : Site) {g g' : Traffic} {c : Nat} {k : Call} {h : Happening}
    (hk : g.calls c = some k) (hg : site.happen g c k h = some g') : g.Open c := by
  have hturn : g.Turn k → g.Open c := fun hturn => .inr ⟨k, hk, hturn.2⟩
  unfold Site.happen at hg
  split at hg
  case h_1 =>
    split at hg
    · rw [Option.ite_none_right_eq_some] at hg
      exact .inr ⟨k, hk, hg.1⟩
    · cases hg
  case h_2 | h_3 | h_6 | h_9 =>
    rw [Option.ite_none_right_eq_some] at hg
    exact .inl hg.1
  case h_4 =>
    rw [Option.ite_none_right_eq_some] at hg
    exact hturn hg.1
  case h_5 | h_13 | h_14 =>
    rw [Option.ite_none_right_eq_some] at hg
    exact hturn hg.1.1
  case h_7 | h_8 =>
    rw [Option.ite_none_right_eq_some] at hg
    exact .inl hg.1.1
  case h_10 =>
    rw [Option.ite_none_right_eq_some] at hg
    exact hg.1.elim .inl hturn
  case h_11 =>
    split at hg
    · rw [Option.ite_none_right_eq_some] at hg
      exact hg.1.1.elim .inl hturn
    · cases hg
  case h_12 =>
    split at hg
    · rw [Option.ite_none_right_eq_some] at hg
      exact .inl hg.1.1
    · cases hg
  case h_15 => cases hg

/-- An event of a passage comes when it can be its turn. -/
theorem Site.open_of_step (site : Site) {g g' : Traffic} {c : Nat} {e : Event} (he : e.isOf c = true)
    (hg : site.step g e = some g') : g.Open c := by
  cases e with
  | register => cases he
  | begin d settings value file parked =>
    simp only [Site.step] at hg
    rw [Option.ite_none_right_eq_some] at hg
    exact .inl hg.1.1
  | own d happening =>
    have hdc : d = c := of_decide_eq_true he
    subst hdc
    simp only [Site.step] at hg
    cases hk : g.calls d with
    | none =>
      rw [hk] at hg
      cases hg
    | some k =>
      rw [hk] at hg
      exact site.open_of_happen hk hg

namespace Mirrors
variable {n : Nat → Names} {g g' : Traffic} {a : Nat → Traffic} {c : Nat} {site : Site}

/-- Before any passage. -/
theorem initial (site : Site) : Mirrors (fun _ => ⟨fun _ _ => False, fun _ _ => False⟩) site.initial fun _ => site.initial where
  alike := fun _ => ⟨rfl, fun _ => ⟨rfl, rfl⟩, by simp, by simp, by simp, by simp⟩
  registry := fun _ => rfl
  files := fun _ _ hf => hf
  call := fun _ => .none
  run_apart := by simp
  ticket_apart := by simp
  under_way := by
    refine ⟨0, ?_, .none, fun _ _ => ⟨site.stack_eq, rfl⟩⟩
    rw [Site.initial, site.stack_eq]
    exact .nil

/-- When it can be the turn of a passage, what is under way is its own. -/
theorem own (h : Mirrors n g a) (hopen : g.Open c) :
    List.Forall₂ (n c).Activation g.runner.stack (a c).runner.stack ∧
      Option.Rel (n c).Directive g.pending (a c).pending ∧ ∀ d, d ≠ c → (a d).Idle := by
  obtain ⟨d, hstack, hpending, hidle⟩ := h.under_way
  rcases hopen with ⟨hs, hp⟩ | ⟨k, hk, hactive⟩
  · rw [hs] at hstack ⊢
    rw [hp] at hpending ⊢
    have hall : ∀ e, (a e).Idle := by
      intro e
      by_cases hed : e = d
      · subst hed
        exact ⟨List.forall₂_nil_left_iff.mp hstack, (rel_none_iff hpending).mp rfl⟩
      · exact hidle e hed
    obtain ⟨hs', hp'⟩ := hall c
    rw [hs', hp']
    exact ⟨.nil, .none, fun e _ => hall e⟩
  · -- The topmost activation is of a run of the passage, and of the one for which something is under way.
    obtain ⟨l, -, hkl⟩ := rel_some (hk ▸ h.call c)
    cases hs : g.runner.stack with
    | nil =>
      rw [Call.isActive, hs] at hactive
      cases hactive
    | cons x rest =>
      rw [hs] at hstack
      obtain ⟨y, rest', hxy, -, hs'⟩ := List.forall₂_cons_left_iff.mp hstack
      obtain ⟨j, hij⟩ := hkl.run_of_active hs hactive
      have hcd : c = d := h.run_apart c d x.run _ _ hij hxy.run
      subst hcd
      exact ⟨hstack, hpending, hidle⟩

/-- A passage has come equally far in all of the traffic and in its own, when it can be its turn. -/
theorem twin (h : Mirrors n g a) (hopen : g.Open c) : Traffic.Twin (n c) g c g (a c) := by
  obtain ⟨hstack, hpending, -⟩ := h.own hopen
  exact {
    runner := { h.alike c with keeps := .refl _ _, stack := hstack }
    registry := h.registry c
    files := h.files c
    call := h.call c
    pending := hpending
    same := rfl
    more := fun _ hf => hf
    others := fun _ _ => rfl }

/-- What happens to one passage leaves the others as they are. -/
theorem step (h : Mirrors n g a) (hopen : g.Open c) {b : Traffic} (hleads : Traffic.Leads (n c) g c g' b) :
    ∃ m, Mirrors m g' (Function.update a c b) := by
  obtain ⟨n', hgrown, htwin⟩ := hleads
  obtain ⟨-, -, hidle⟩ := h.own hopen
  -- What is named for this passage now and was not before is new, so that no other passage has a name for it.
  have hrun : ∀ d, d ≠ c → ∀ i j, (n d).run i j → ∀ j', ¬n'.run i j' := by
    intro d hd i j hij j' hij'
    rcases hgrown.run i j' hij' with hold | hnew
    · exact hd (h.run_apart d c i j j' hij hold)
    · exact absurd ((h.alike d).run i j hij).1 (Nat.not_lt_of_le hnew)
  have hticket : ∀ d, d ≠ c → ∀ t u, (n d).ticket t u → ∀ u', ¬n'.ticket t u' := by
    intro d hd t u htu u' htu'
    rcases hgrown.ticket t u' htu' with hold | hnew
    · exact hd (h.ticket_apart d c t u u' htu hold)
    · exact absurd ((h.alike d).ticket t u htu).1 (Nat.not_lt_of_le hnew)
  refine ⟨Function.update n c n', ?_⟩
  -- For each field there is this passage, for which the pair of moves says it, and the others, for which it stays.
  constructor
  case alike =>
    intro d
    by_cases hd : d = c
    · subst hd
      rw [Function.update_self, Function.update_self]
      exact htwin.runner.toAlike
    · rw [Function.update_of_ne hd, Function.update_of_ne hd]
      exact (h.alike d).frame htwin.runner.keeps (hrun d hd) (hticket d hd)
  case registry =>
    intro d
    by_cases hd : d = c
    · subst hd
      rw [Function.update_self]
      exact htwin.registry
    · rw [Function.update_of_ne hd, htwin.same]
      exact h.registry d
  case files =>
    intro d f hf
    by_cases hd : d = c
    · subst hd
      rw [Function.update_self] at hf
      exact htwin.files f hf
    · rw [Function.update_of_ne hd] at hf
      exact htwin.more f (h.files d f hf)
  case call =>
    intro d
    by_cases hd : d = c
    · subst hd
      rw [Function.update_self, Function.update_self]
      exact htwin.call
    · rw [Function.update_of_ne hd, Function.update_of_ne hd, htwin.others d hd]
      exact h.call d
  case run_apart =>
    intro d e i j j' hij hij'
    by_cases hd : d = c
    · by_cases he : e = c
      · rw [hd, he]
      · rw [hd, Function.update_self] at hij
        rw [Function.update_of_ne he] at hij'
        exact absurd hij (hrun e he i j' hij' j)
    · rw [Function.update_of_ne hd] at hij
      by_cases he : e = c
      · rw [he, Function.update_self] at hij'
        exact absurd hij' (hrun d hd i j hij j')
      · rw [Function.update_of_ne he] at hij'
        exact h.run_apart d e i j j' hij hij'
  case ticket_apart =>
    intro d e t u u' htu htu'
    by_cases hd : d = c
    · by_cases he : e = c
      · rw [hd, he]
      · rw [hd, Function.update_self] at htu
        rw [Function.update_of_ne he] at htu'
        exact absurd htu (hticket e he t u' htu' u)
    · rw [Function.update_of_ne hd] at htu
      by_cases he : e = c
      · rw [he, Function.update_self] at htu'
        exact absurd htu' (hticket d hd t u htu u')
      · rw [Function.update_of_ne he] at htu'
        exact h.ticket_apart d e t u u' htu htu'
  case under_way =>
    refine ⟨c, ?_, ?_, ?_⟩
    · rw [Function.update_self, Function.update_self]
      exact htwin.runner.stack
    · rw [Function.update_self, Function.update_self]
      exact htwin.pending
    · intro d hd
      rw [Function.update_of_ne hd]
      exact hidle d hd

/-- An event of one passage comes in the traffic of the passage alone too. -/
theorem event (h : Mirrors n g a) {e : Event} (he : e.isOf c = true) (hg : site.step g e = some g') :
    ∃ b m, site.step (a c) e = some b ∧ Mirrors m g' (Function.update a c b) := by
  have hopen : g.Open c := site.open_of_step he hg
  have htwin : Traffic.Twin (n c) g c g (a c) := h.twin hopen
  cases e with
  | register k => cases he
  | begin d settings value file parked =>
    have hdc : d = c := of_decide_eq_true he
    subst hdc
    obtain ⟨b, hb, hleads⟩ := site.begin_leads htwin hg
    obtain ⟨m, hm⟩ := h.step hopen hleads
    exact ⟨b, m, hb, hm⟩
  | own d happening =>
    have hdc : d = c := of_decide_eq_true he
    subst hdc
    have hrel := site.own_rel htwin happening
    rw [hg] at hrel
    obtain ⟨b, hb, hleads⟩ := rel_some hrel
    obtain ⟨m, hm⟩ := h.step hopen hleads
    exact ⟨b, m, hb, hm⟩

/-- The events of each passage come in the traffic of the passage alone. -/
theorem after (h : Mirrors n g a) {σ : List Event} (hσ : ∀ k, Event.register k ∉ σ) (hg : site.after g σ = some g') :
    ∃ b m, Mirrors m g' b ∧ ∀ c, site.after (a c) (σ.filter (·.isOf c)) = some (b c) := by
  induction σ generalizing n g a with
  | nil =>
    cases hg
    exact ⟨a, n, h, fun c => rfl⟩
  | cons e σ ih =>
    obtain ⟨g₁, hg₁, hrest⟩ := Option.bind_eq_some_iff.mp hg
    obtain ⟨c, hc⟩ : ∃ c, e.isOf c = true := by
      cases e with
      | begin c => exact ⟨c, decide_eq_true rfl⟩
      | own c => exact ⟨c, decide_eq_true rfl⟩
      | register k => exact absurd List.mem_cons_self (hσ k)
    obtain ⟨b₁, m₁, hb₁, hm₁⟩ := h.event hc hg₁
    obtain ⟨b, m, hm, hb⟩ := ih hm₁ (fun k hk => hσ k (List.mem_cons_of_mem e hk)) hrest
    refine ⟨b, m, hm, ?_⟩
    intro d
    by_cases hd : d = c
    · subst hd
      rw [List.filter_cons_of_pos hc, Site.after, hb₁, Option.bind_some]
      simpa only [Function.update_self] using hb d
    · have hne : ¬e.isOf d = true := by
        intro hed
        exact hd (e.isOf_unique hed hc)
      rw [List.filter_cons_of_neg hne]
      simpa only [Function.update_of_ne hd] using hb d

/-- What there is to tell of a passage is the same in its own traffic. -/
theorem view_eq (h : Mirrors n g a) (c : Nat) : (g.calls c).map Call.view = ((a c).calls c).map Call.view := by
  have hcall := h.call c
  generalize g.calls c = x, (a c).calls c = y at hcall
  cases hcall with
  | none => rfl
  | some hk =>
    rw [Option.map_some, Option.map_some, Call.view, Call.view, Call.outcome, Call.outcome, hk.passage, hk.account,
      hk.responses, hk.crash, hk.ending]

end Mirrors

/-- A text is parsed while the transformer of a tree waits; then the transformer of the text fails, and that of the tree
calls its continuation. -/
def interleaved : List Event :=
  [.begin 0 .null (.str "text") (.file 0) .null] ++ Site.attends 0 3 ++ [.own 0 .parse] ++
    [.begin 1 .null (.list 9) (.file 1) .null] ++ Site.attends 1 5 ++ [.own 1 (.returned .null false)] ++
    Site.attends 1 1 ++ [.own 0 (.parsed (.list 8)), .own 0 (.concluded 0)] ++ Site.attends 0 3 ++
    [.own 0 (.raised (.fault 7))] ++ Site.attends 0 4 ++ [.own 1 (.next 0 none)] ++ Site.attends 1 4 ++
    [.own 1 (.compiled (.str "out") false)] ++ Site.attends 1 3

end Treeworks
