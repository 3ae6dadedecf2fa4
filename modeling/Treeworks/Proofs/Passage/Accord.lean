import Treeworks.Proofs.Passage.Likeness

/-! What happens to a passage happens alike in traffics in which it has come equally far. -/
namespace Treeworks

namespace Site
variable {n : Names} {c : Nat} {g a : Traffic} {k l : Call} {t u : Nat} (site : Site)

/-- Both wares have the same steps in both. -/
theorem stepsOf_eq (h : Traffic.Twin n g c g a) (w : Nat) : site.stepsOf g w = site.stepsOf a w := by
  rw [stepsOf, stepsOf, h.registry]

/-- The future of a passage ends alike. -/
theorem finish_leads (h : Traffic.Twin n g c g a) (hk : n.Call k l) (e : Value) :
    Traffic.Leads n g c (site.finish g c k e) (site.finish a c l e) := by
  unfold Site.finish
  rw [hk.ending]
  split
  · exact h.answer (.returned .null false) rfl { hk with ending := rfl }
  · exact h.answer (.raised _ true) rfl hk
  · exact h.answer (.returned .null false) rfl hk

/-- A stage is done alike. -/
theorem stage_rel (h : Traffic.Twin n g c g a) (hk : n.Call k l) (htu : n.ticket t u) (hook : Hook) :
    Option.Rel (Traffic.Leads n g c) (site.stage g c k t hook) (site.stage a c l u hook) := by
  cases hook with
  | parseStage =>
    have hlook : n.Call { k with passage := k.passage.look k.account.slot }
        { l with passage := l.passage.look l.account.slot } :=
      { hk with passage := by rw [hk.passage, hk.account] }
    refine rel_ite (by rw [hk.passage, hk.account]) (fun _ => .some ?_) fun _ => .some ?_
    · exact h.answer (.returned _ true) rfl { hlook with chore := .parse htu }
    · exact h.answer (.returned .null false) rfl hlook
  | runStage =>
    have hparked : n.Call
        { k with account := { k.account with slot := parkedTree k.passage.tree k.account.slot } }
        { l with account := { l.account with slot := parkedTree l.passage.tree l.account.slot } } :=
      { hk with account := by rw [hk.passage, hk.account] }
    refine rel_ite (by rw [hk.passage, hk.account]) (fun _ => .some ?_) fun _ => ?_
    · exact h.answer (.raised _ true) rfl hk
    · refine rel_ite (by rw [h.registry]) (fun _ => .some ?_) fun _ => .some ?_
      · exact h.answer (.next none htu) rfl { hparked with responses := by rw [hk.responses] }
      · -- The run of the transformers is the one that the move makes.
        have hstart : n.Move
            (.start site.ware [chosenTree k.passage.tree k.account.slot, k.passage.file] (.next t))
            (.start site.ware [chosenTree l.passage.tree l.account.slot, l.passage.file] (.next u)) := by
          rw [hk.passage, hk.account]
          exact .start _ _ (.next htu)
        have hbelow := n.below_addRun g.runner.runs.size a.runner.runs.size
        exact h.move hstart (.inl rfl) { hparked.mono hbelow with inner := .some (.inr ⟨rfl, rfl⟩) }
  | compileStage =>
    refine rel_ite (by rw [hk.passage, hk.account]) (fun _ => .some ?_) fun _ => .some ?_
    · exact h.answer (.raised _ true) rfl hk
    · have hcompiling : n.Call
          { k with
            account := ⟨k.account.errands ++ [.compile k.passage.file k.passage.settings],
              parkedTree k.passage.tree k.account.slot⟩
            chore := .compiling t }
          { l with
            account := ⟨l.account.errands ++ [.compile l.passage.file l.passage.settings],
              parkedTree l.passage.tree l.account.slot⟩
            chore := .compiling u } :=
        { hk with account := by rw [hk.passage, hk.account], chore := .compiling htu }
      obtain ⟨n', hn, hput⟩ := h.put hcompiling
      exact ⟨n', hn, { hput with pending := .none }⟩
  | _ => exact .none

/-- What is due is done alike. -/
theorem attend_rel (h : Traffic.Twin n g c g a) (hk : n.Call k l) (future : Nat) {x y : Activation}
    {rest : List Activation} (hx : g.runner.stack = x :: rest) (hxy : n.Activation x y) {d d' : Directive}
    (hd : n.Directive d d') :
    Option.Rel (Traffic.Leads n g c) (site.attend g c k future x d) (site.attend a c l future y d') := by
  cases hd with
  | seek steps index =>
    obtain ⟨-, -, hrun⟩ := h.runner.run _ _ hxy.run
    refine .some ?_
    rw [hrun.ware, hrun.index, site.stepsOf_eq h]
    refine h.move (.found _) (.inr (by simp [hx])) (hk.mono (n.below_after _ _ _))
  | await v => exact .some (h.answer (.watching future) rfl hk)
  | leave => exact .some (h.answer (.returned .null false) rfl hk)
  | fail e => exact .some (h.answer (.raised e _) rfl hk)
  | @call done done' args hdone =>
    cases hdone with
    | next htu => exact .some (h.answer (.next _ htu) rfl hk)
    | same hv =>
      cases done with
      | next t => exact absurd rfl (hv t)
      | hook hook =>
        cases hook with
        | finish => exact .some (site.finish_leads h hk _)
        | _ => exact .none
      | _ => exact .none
  | invoke step inputs context htu =>
    obtain ⟨i, drives, wait⟩ := x
    obtain ⟨j, drives', wait'⟩ := y
    have hwait : n.Wait wait wait' := hxy.wait
    unfold Site.attend
    dsimp only
    cases step.callee with
    | hook hook =>
      cases hwait with
      | step htu => exact site.stage_rel h hk htu hook
      | seeking | settling | failed | finished => exact .none
    | _ => exact .none

/-- Nothing is under way in both or in none. -/
theorem idle_iff (h : Traffic.Twin n g c g a) : g.Idle ↔ a.Idle := by
  have hstack : g.runner.stack = [] ↔ a.runner.stack = [] := by
    have hlength := h.runner.stack.length_eq
    rw [← List.length_eq_zero_iff, ← List.length_eq_zero_iff, hlength]
  exact and_congr hstack (rel_none_iff h.pending)

/-- The topmost activation is that of the passage in both or in none. -/
theorem isActive_eq (h : Traffic.Twin n g c g a) (hk : n.Call k l) :
    k.isActive g.runner = l.isActive a.runner := by
  unfold Call.isActive
  cases hs : g.runner.stack with
  | nil => rw [h.runner.stack_nil hs]
  | cons x rest =>
    obtain ⟨y, rest', hs', hxy, -⟩ := h.runner.pop hs
    have hrun : x.run = k.run ↔ y.run = l.run := h.runner.run_inj _ _ _ _ hxy.run hk.run
    simp only [hs', hrun, Names.inner_eq_iff h.runner.run_inj hk.inner hxy.run]

theorem turn_iff (h : Traffic.Twin n g c g a) (hk : n.Call k l) : g.Turn k ↔ a.Turn l := by
  rw [Traffic.Turn, Traffic.Turn, rel_none_iff h.pending, isActive_eq h hk]

/-- A transformer of the passage is being invoked in both or in none. -/
theorem isInvoking_eq (h : Traffic.Twin n g c g a) (hk : n.Call k l) :
    k.isInvoking g.runner = l.isInvoking a.runner := by
  unfold Call.isInvoking
  cases hs : g.runner.stack with
  | nil => rw [h.runner.stack_nil hs]
  | cons x rest =>
    obtain ⟨⟨j, drives', wait'⟩, rest', hs', hxy, -⟩ := h.runner.pop hs
    obtain ⟨i, drives, wait⟩ := x
    rw [hs']
    have hij : n.run i j := hxy.run
    have hwait : n.Wait wait wait' := hxy.wait
    cases hwait with
    | seeking | settling | failed | finished => rfl
    | step htu => simp only [Names.inner_eq_iff h.runner.run_inj hk.inner hij]

/-- What happens to a passage in flight happens alike. -/
theorem happen_rel (h : Traffic.Twin n g c g a) (hk : n.Call k l) (happening : Happening) :
    Option.Rel (Traffic.Leads n g c) (site.happen g c k happening) (site.happen a c l happening) := by
  have hchore := hk.chore
  have hidle : g.Idle ↔ a.Idle := idle_iff h
  have hturn : g.Turn k ↔ a.Turn l := turn_iff h hk
  have hinvoking := isInvoking_eq h hk
  -- What can happen depends on the chore and on whose turn it is, which are the same on both sides.
  cases happening with
  | attend future =>
    simp only [Site.happen]
    have hpending := h.pending
    generalize g.pending = p, a.pending = q at hpending
    cases hpending with
    | none => exact .none
    | some hd =>
      cases hs : g.runner.stack with
      | nil =>
        rw [h.runner.stack_nil hs]
        exact .none
      | cons x rest =>
        obtain ⟨y, rest', hs', hxy, -⟩ := h.runner.pop hs
        simp only [hs']
        exact rel_ite (by rw [isActive_eq h hk]) (fun _ => site.attend_rel h hk future hs hxy hd) fun _ => .none
  | parse =>
    simp only [Site.happen]
    generalize k.chore = x, l.chore = y at hchore
    cases hchore with
    | parse htu =>
      refine rel_ite hidle (fun _ => .some (h.put ?_)) fun _ => .none
      exact { hk with account := by rw [hk.passage, hk.account], chore := .parsing htu }
    | none | parsing | compiling | settling | ended => exact .none
  | parsed tree =>
    simp only [Site.happen]
    generalize k.chore = x, l.chore = y at hchore
    cases hchore with
    | parsing htu =>
      refine rel_ite hidle (fun _ => .some (h.put ?_)) fun _ => .none
      exact { hk with
        passage := by rw [hk.passage]
        account := by rw [hk.account]
        responses := by rw [hk.responses]
        chore := .ended none htu }
    | none | parse | compiling | settling | ended => exact .none
  | compiled v awaitable =>
    simp only [Site.happen]
    generalize k.chore = x, l.chore = y at hchore
    cases hchore with
    | compiling htu =>
      refine rel_ite hturn (fun _ => rel_ite Iff.rfl (fun _ => .some ?_) fun _ => .some ?_) fun _ => .none
      · exact h.answer (.returned _ true) rfl { hk with chore := .settling htu }
      · exact h.answer (.returned .null false) rfl { hk with
          passage := by rw [hk.passage]
          responses := by rw [hk.responses]
          chore := .none }
    | none | parse | parsing | settling | ended => exact .none
  | uncompiled e =>
    simp only [Site.happen]
    generalize k.chore = x, l.chore = y at hchore
    cases hchore with
    | compiling htu =>
      refine rel_ite (and_congr hturn Iff.rfl) (fun _ => .some ?_) fun _ => .none
      exact h.answer (.raised e _) rfl { hk with responses := by rw [hk.responses], chore := .none }
    | none | parse | parsing | settling | ended => exact .none
  | resulted v =>
    simp only [Site.happen]
    generalize k.chore = x, l.chore = y at hchore
    cases hchore with
    | settling htu =>
      refine rel_ite hidle (fun _ => .some (h.put ?_)) fun _ => .none
      exact { hk with
        passage := by rw [hk.passage]
        responses := by rw [hk.responses]
        chore := .ended none htu }
    | none | parse | parsing | compiling | ended => exact .none
  | broken e =>
    simp only [Site.happen]
    generalize k.chore = x, l.chore = y at hchore
    cases hchore with
    | parsing htu | settling htu =>
      refine rel_ite (and_congr hidle Iff.rfl) (fun _ => .some (h.put ?_)) fun _ => .none
      exact { hk with responses := by rw [hk.responses], chore := .ended (some e) htu }
    | none | parse | compiling | ended => exact .none
  | concluded future =>
    simp only [Site.happen]
    generalize k.chore = x, l.chore = y at hchore
    cases hchore with
    | ended e htu =>
      refine rel_ite hidle (fun _ => .some ?_) fun _ => .none
      exact h.answer (.settled future e htu) rfl { hk with chore := .none }
    | none | parse | parsing | compiling | settling => exact .none
  | park tree =>
    simp only [Site.happen]
    refine rel_ite (or_congr hidle hturn) (fun _ => .some (h.put ?_)) fun _ => .none
    exact { hk with account := by rw [hk.account], responses := by rw [hk.responses] }
  | next place e =>
    simp only [Site.happen]
    rcases rel_getElem? hk.tickets place with ⟨hk', hl'⟩ | ⟨t, u, hk', hl', htu⟩
    · rw [hk', hl']
      exact .none
    · rw [hk', hl']
      refine rel_ite (and_congr (or_congr hidle hturn) Iff.rfl) (fun _ => .some ?_) fun _ => .none
      exact h.answer (.next e htu) rfl hk
  | settled place future e =>
    simp only [Site.happen]
    rcases rel_getElem? hk.tickets place with ⟨hk', hl'⟩ | ⟨t, u, hk', hl', htu⟩
    · rw [hk', hl']
      exact .none
    · rw [hk', hl']
      refine rel_ite (and_congr hidle Iff.rfl) (fun _ => .some ?_) fun _ => .none
      exact h.answer (.settled future e htu) rfl hk
  | returned v awaitable =>
    simp only [Site.happen]
    refine rel_ite (and_congr hturn (by rw [hinvoking])) (fun _ => .some ?_) fun _ => .none
    exact h.answer (.returned v awaitable) rfl hk
  | raised e =>
    simp only [Site.happen]
    refine rel_ite (and_congr hturn (and_congr (by rw [hinvoking]) Iff.rfl)) (fun _ => .some ?_) fun _ => .none
    exact h.answer (.raised e _) rfl hk

/-- A passage that can begin in one can begin in the other, which has fewer files. -/
theorem begin_leads (h : Traffic.Twin n g c g a) {settings value file parked : Value} {g' : Traffic}
    (hg : site.step g (.begin c settings value file parked) = some g') :
    ∃ a', site.step a (.begin c settings value file parked) = some a' ∧ Traffic.Leads n g c g' a' := by
  simp only [Site.step] at hg ⊢
  rw [Option.ite_none_right_eq_some] at hg
  obtain ⟨⟨hidle, hnone, hfile, hnew, hparked⟩, hg⟩ := hg
  cases hg
  have hcan' : a.Idle ∧ a.calls c = none ∧ file.isFile ∧ file ∉ a.files ∧
      (if value.isFile then file = value else parked = .null) :=
    ⟨(idle_iff h).mp hidle, (rel_none_iff h.call).mp hnone, hfile, fun hf => hnew (h.files _ hf), hparked⟩
  rw [if_pos hcan']
  refine ⟨_, rfl, ?_⟩
  have hfiles : Traffic.Twin n { g with files := file :: g.files } c { g with files := file :: g.files }
      { a with files := file :: a.files } :=
    { h with
      files := by
        intro f hf
        rw [List.mem_cons] at hf ⊢
        exact hf.imp_right (h.files f)
      same := rfl
      more := fun _ hf => hf
      others := fun _ _ => rfl }
  have hstart : n.Move (.start 0 [.passage c] (.hook (.finish c c))) (.start 0 [.passage c] (.hook (.finish c c))) :=
    .start 0 _ (.same (by simp))
  have hcall : (n.addRun g.runner.runs.size a.runner.runs.size).Call
      ⟨Passage.ofValue site.processor settings value file, ⟨[], parked⟩, g.runner.runs.size, none, [], .none, true, [],
        none, none⟩
      ⟨Passage.ofValue site.processor settings value file, ⟨[], parked⟩, a.runner.runs.size, none, [], .none, true, [],
        none, none⟩ :=
    ⟨rfl, rfl, .inr ⟨rfl, rfl⟩, .none, .nil, .none, rfl, rfl, rfl, rfl⟩
  obtain ⟨n', hgrown, hleads⟩ := hfiles.move hstart (.inl rfl) hcall
  exact ⟨n', hgrown, { hleads with more := fun f hf => hleads.more f (List.mem_cons_of_mem _ hf) }⟩

/-- What can happen to a passage in one can happen to it in the other. -/
theorem own_rel (h : Traffic.Twin n g c g a) (happening : Happening) :
    Option.Rel (Traffic.Leads n g c) (site.step g (.own c happening)) (site.step a (.own c happening)) := by
  simp only [Site.step]
  have hcall := h.call
  generalize g.calls c = x, a.calls c = y at hcall
  cases hcall with
  | none => exact .none
  | some hk => exact site.happen_rel h hk happening

end Site
end Treeworks
