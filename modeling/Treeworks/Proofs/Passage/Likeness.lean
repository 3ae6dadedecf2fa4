import Mathlib.Data.Option.Basic
import Treeworks.Proofs.Run.Accord
import Treeworks.Proofs.Passage.Traffic

/-! Two traffics in which one passage has come equally far. What happens to the passage then can happen in both, and
leaves it equally far in both. -/
namespace Treeworks

section Rel
variable {α β : Type} {R : α → β → Prop}

/-- Related optional values are both there or both absent. -/
theorem rel_none_iff {x : Option α} {y : Option β} (hxy : Option.Rel R x y) :
    x = none ↔ y = none := by
  cases hxy with
  | none => exact iff_of_true rfl rfl
  | some _ => simp

theorem rel_some {x : α} {y : Option β} (hxy : Option.Rel R (some x) y) :
    ∃ b, y = some b ∧ R x b := by
  cases hxy with
  | some hxb => exact ⟨_, rfl, hxb⟩

/-- What stands at a place of related lists is related. -/
theorem rel_getElem? {l : List α} {m : List β} (hlm : List.Forall₂ R l m) (i : Nat) :
    (l[i]? = none ∧ m[i]? = none) ∨ ∃ x y, l[i]? = some x ∧ m[i]? = some y ∧ R x y := by
  by_cases hi : i < l.length
  · have hi' : i < m.length := hlm.length_eq ▸ hi
    exact .inr ⟨l[i], m[i], List.getElem?_eq_getElem hi, List.getElem?_eq_getElem hi', hlm.get hi hi'⟩
  · have hi' : ¬i < m.length := hlm.length_eq ▸ hi
    exact .inl ⟨List.getElem?_eq_none (Nat.le_of_not_lt hi), List.getElem?_eq_none (Nat.le_of_not_lt hi')⟩

/-- Cases that are told apart alike on both sides. -/
theorem rel_ite {p q : Prop} [Decidable p] [Decidable q] {x x' : Option α}
    {y y' : Option β} (hpq : p ↔ q) (hpos : p → Option.Rel R x y) (hneg : ¬p → Option.Rel R x' y') :
    Option.Rel R (if p then x else x') (if q then y else y') := by
  by_cases hp : p
  · rw [if_pos hp, if_pos (hpq.mp hp)]
    exact hpos hp
  · rw [if_neg hp, if_neg (mt hpq.mpr hp)]
    exact hneg hp

end Rel

namespace Names

/-- Coroutines of stages that have come equally far. -/
inductive Chore (n : Names) : Treeworks.Chore → Treeworks.Chore → Prop
  | none : Chore n .none .none
  | parse {t u : Nat} : n.ticket t u → Chore n (.parse t) (.parse u)
  | parsing {t u : Nat} : n.ticket t u → Chore n (.parsing t) (.parsing u)
  | compiling {t u : Nat} : n.ticket t u → Chore n (.compiling t) (.compiling u)
  | settling {t u : Nat} : n.ticket t u → Chore n (.settling t) (.settling u)
  | ended {t u : Nat} (error : Option Treeworks.Value) : n.ticket t u → Chore n (.ended t error) (.ended u error)

/-- Passages that have come equally far. -/
structure Call (n : Names) (k l : Treeworks.Call) : Prop where
  passage : k.passage = l.passage
  account : k.account = l.account
  run : n.run k.run l.run
  inner : Option.Rel n.run k.inner l.inner
  tickets : List.Forall₂ n.ticket k.tickets l.tickets
  chore : n.Chore k.chore l.chore
  starting : k.starting = l.starting
  responses : k.responses = l.responses
  ending : k.ending = l.ending
  crash : k.crash = l.crash

/-- No two runs of one runner stand for the same run of the other. -/
def Distinct (n : Names) : Prop := ∀ i j i' j', n.run i j → n.run i' j' → (i = i' ↔ j = j')

variable {n n' : Names} {r s : Runner} {k l : Treeworks.Call}

theorem Chore.mono (h : n.Below n') {x y : Treeworks.Chore} (hxy : n.Chore x y) : n'.Chore x y := by
  cases hxy with
  | none => exact .none
  | parse htu => exact .parse (h.2 _ _ htu)
  | parsing htu => exact .parsing (h.2 _ _ htu)
  | compiling htu => exact .compiling (h.2 _ _ htu)
  | settling htu => exact .settling (h.2 _ _ htu)
  | ended e htu => exact .ended e (h.2 _ _ htu)

theorem inner_mono (h : n.Below n') {x y : Option Nat} (hxy : Option.Rel n.run x y) : Option.Rel n'.run x y := by
  cases hxy with
  | some hij => exact .some (h.1 _ _ hij)
  | none => exact .none

theorem Call.mono (h : n.Below n') (hk : n.Call k l) : n'.Call k l where
  passage := hk.passage
  account := hk.account
  run := h.1 _ _ hk.run
  inner := inner_mono h hk.inner
  tickets := hk.tickets.imp fun _ _ htu => h.2 _ _ htu
  chore := hk.chore.mono h
  starting := hk.starting
  responses := hk.responses
  ending := hk.ending
  crash := hk.crash

/-- Whether a run is that of the transformers of a passage is told alike on both sides. -/
theorem inner_eq_iff (hn : n.Distinct) {x y : Option Nat} (hxy : Option.Rel n.run x y) {i j : Nat} (hij : n.run i j) :
    x = some i ↔ y = some j := by
  cases hxy with
  | none => simp
  | @some i' j' hij' => rw [Option.some_inj, Option.some_inj, hn i' j' i j hij' hij]

namespace Call

/-- The run of the topmost activation has a name when it is of the passage. -/
theorem run_of_active (hk : n.Call k l) {x : Treeworks.Activation} {rest : List Treeworks.Activation}
    (hs : r.stack = x :: rest) (hactive : k.isActive r = true) : ∃ j, n.run x.run j := by
  rw [Treeworks.Call.isActive, hs] at hactive
  rcases of_decide_eq_true hactive with hrun | hinner
  · exact ⟨l.run, hrun ▸ hk.run⟩
  · have hrel := hk.inner
    rw [hinner] at hrel
    obtain ⟨j, -, hij⟩ := rel_some hrel
    exact ⟨j, hij⟩

/-- A completion tells the same on both sides. -/
theorem response? (hk : n'.Call k l) (hn : n'.Distinct) (hbelow : n.Below n') (h : Runner.Alike n r s) {t u : Nat}
    (htu : n.ticket t u) (e : Option Treeworks.Value) :
    k.response? r (.completed t e) = l.response? s (.completed u e) := by
  obtain ⟨-, -, hticket⟩ := h.ticket t u htu
  have hinner := inner_eq_iff hn hk.inner (hbelow.1 _ _ hticket.run)
  simp only [Treeworks.Call.response?, hticket.called, ne_eq, hinner]

/-- A move tells the same of the transformers on both sides. -/
theorem heard (hk : n'.Call k l) (hn : n'.Distinct) (hbelow : n.Below n') {o : Runner} (h : Runner.Twin n o r s)
    {m m' : Treeworks.Move} (hm : n.Move m m') : k.heard r m = l.heard s m' := by
  have hresponse {t u : Nat} (htu : n.ticket t u) (e : Option Treeworks.Value) :
      [Deed.completed t e].filterMap (k.response? r) = [Deed.completed u e].filterMap (l.response? s) := by
    rw [List.filterMap_cons, List.filterMap_cons, hk.response? hn hbelow h.toAlike htu e]
    rfl
  -- What is heard of a move is the signal that it gives for a ticket, and tickets correspond.
  cases hm with
  | start ware inputs hdone => rfl
  | found step =>
    unfold Treeworks.Call.heard
    cases hs : r.stack with
    | nil => rw [h.stack_nil hs]
    | cons a rest =>
      obtain ⟨b, rest', hs', hab, -⟩ := h.pop hs
      simp only [hs', inner_eq_iff hn hk.inner (hbelow.1 _ _ hab.run)]
  | next e htu => exact hresponse htu e
  | settled future e htu => exact hresponse htu e
  | returned v awaitable =>
    simp only [Treeworks.Call.heard, Runner.signals]
    cases hs : r.stack with
    | nil => simp only [h.stack_nil hs, List.filterMap_nil]
    | cons a rest =>
      obtain ⟨⟨j, drives', wait'⟩, rest', hs', hab, -⟩ := h.pop hs
      obtain ⟨i, drives, wait⟩ := a
      rw [hs']
      have hwait : n.Wait wait wait' := hab.wait
      cases hwait with
      | seeking | failed | finished => rfl
      | settling htu => exact hresponse htu _
      | @step t u htu =>
        simp only [(h.ticket t u htu).2.2.given]
        split
        · rfl
        · exact hresponse htu _
  | raised e ordinary =>
    simp only [Treeworks.Call.heard, Runner.signals]
    cases hs : r.stack with
    | nil => simp only [h.stack_nil hs, List.filterMap_nil]
    | cons a rest =>
      obtain ⟨⟨j, drives', wait'⟩, rest', hs', hab, -⟩ := h.pop hs
      obtain ⟨i, drives, wait⟩ := a
      rw [hs']
      have hwait : n.Wait wait wait' := hab.wait
      cases hwait with
      | seeking | failed | finished => rfl
      | settling htu | step htu =>
        dsimp only
        split
        · exact hresponse htu _
        · rfl
  | watching future => rfl

/-- A transformer that is invoked is noted on both sides. -/
theorem asks (hk : n.Call k l) {o : Runner} (h : Runner.Twin n o r s) {d d' : Treeworks.Directive}
    (hd : n.Directive d d') : n.Call (k.asks r d) (l.asks s d') := by
  cases hd with
  | seek | await | call | leave | fail => exact hk
  | invoke step inputs context _ =>
    simp only [Treeworks.Call.asks]
    cases hs : r.stack with
    | nil =>
      rw [h.stack_nil hs]
      exact hk
    | cons a rest =>
      obtain ⟨⟨j, drives', wait'⟩, rest', hs', hab, -⟩ := h.pop hs
      obtain ⟨i, drives, wait⟩ := a
      rw [hs']
      have hij : n.run i j := hab.run
      have hwait : n.Wait wait wait' := hab.wait
      cases hwait with
      | seeking | settling | failed | finished => exact hk
      | step htu =>
        dsimp only
        split
        · exact hk
        · rw [(h.run i j hij).2.2.inputs, hk.tickets.length_eq, hk.account]
          exact { hk with
            account := rfl
            tickets := List.rel_append hk.tickets (.cons htu .nil) }

/-- The first part of a passage ends on both sides. -/
theorem lands (hk : n.Call k l) {o : Runner} (h : Runner.Twin n o r s) {d d' : Treeworks.Directive}
    (hd : n.Directive d d') : n.Call (k.lands r d) (l.lands s d') := by
  unfold Treeworks.Call.lands
  cases hs : r.stack with
  | nil =>
    rw [h.stack_nil hs]
    cases hd with
    | seek | invoke | await | call | leave => exact { hk with starting := rfl }
    | fail e => exact { hk with starting := rfl, crash := by rw [hk.starting, hk.crash] }
  | cons a rest =>
    obtain ⟨b, rest', hs', -, -⟩ := h.pop hs
    rw [hs']
    exact hk

end Call
end Names

namespace Runner
variable {n : Names} {o r s : Runner}

/-- What the topmost activation waits for is done by the library on both sides, or on none. -/
theorem Twin.awaitsLibrary (h : Twin n o r s) : r.awaitsLibrary = s.awaitsLibrary := by
  unfold Runner.awaitsLibrary
  cases hs : r.stack with
  | nil => rw [h.stack_nil hs]
  | cons a rest =>
    obtain ⟨⟨j, drives', wait'⟩, rest', hs', hab, -⟩ := h.pop hs
    obtain ⟨i, drives, wait⟩ := a
    rw [hs']
    have hij : n.run i j := hab.run
    have hwait : n.Wait wait wait' := hab.wait
    have hdone : n.Value (r.run i).done (s.run j).done := (h.run i j hij).2.2.done
    cases hwait with
    | seeking | settling => rfl
    | step htu => simp only [h.stepOf htu]
    | failed | finished =>
      dsimp only
      generalize (r.run i).done = v, (s.run j).done = w at hdone
      cases hdone with
      | next htu => rfl
      | same _ => rfl

/-- What the library has to do next is alike on both sides. -/
theorem Twin.duty (h : Twin n o r s) {d d' : Directive} (hd : n.Directive d d') :
    Option.Rel n.Directive (r.duty d) (s.duty d') := by
  have hd' := hd
  cases hd with
  | seek | await | call => exact .some hd'
  | leave | fail =>
    simp only [Runner.duty, h.awaitsLibrary]
    split
    · exact .some hd'
    · exact .none
  | invoke step inputs context htu =>
    dsimp only [Runner.duty]
    split
    · exact .some hd'
    · exact .none

end Runner

/-- Names to which only runs and tickets have been added that a runner does not have. -/
structure Names.Grown (n : Names) (o : Runner) (n' : Names) : Prop where
  below : n.Below n'
  run : ∀ i j, n'.run i j → n.run i j ∨ o.runs.size ≤ i
  ticket : ∀ t u, n'.ticket t u → n.ticket t u ∨ o.tickets.size ≤ t

theorem Names.grown_refl (n : Names) (o : Runner) : n.Grown o n :=
  ⟨.refl n, fun _ _ hij => .inl hij, fun _ _ htu => .inl htu⟩

theorem Names.grown_after (n : Names) (r s : Runner) (m : Treeworks.Move) : n.Grown r (n.after r s m) := by
  have hgrown := n.grown_refl r
  refine ⟨n.below_after r s m, ?_, ?_⟩
  · intro i j hij
    cases m with
    | start => exact hij.imp_right fun hnew => Nat.le_of_eq hnew.1.symm
    | found step => cases step <;> exact .inl hij
    | next | settled | returned | raised | watching => exact .inl hij
  · intro t u htu
    cases m with
    | found step =>
      cases step with
      | none => exact .inl htu
      | some k => exact htu.imp_right fun hnew => Nat.le_of_eq hnew.1.symm
    | start | next | settled | returned | raised | watching => exact .inl htu

namespace Traffic

/-- Traffics in which a passage has come equally far, of which the second may have fewer files. The first has come from
another by changing only what is the passage's own. -/
structure Twin (n : Names) (o : Traffic) (c : Nat) (g a : Traffic) : Prop where
  runner : Runner.Twin n o.runner g.runner a.runner
  registry : g.registry = a.registry
  files : ∀ f ∈ a.files, f ∈ g.files
  call : Option.Rel n.Call (g.calls c) (a.calls c)
  pending : Option.Rel n.Directive g.pending a.pending
  same : g.registry = o.registry
  more : ∀ f ∈ o.files, f ∈ g.files
  others : ∀ d, d ≠ c → g.calls d = o.calls d

/-- Traffics in which a passage has come equally far again, with names for what is new. -/
def Leads (n : Names) (o : Traffic) (c : Nat) (g a : Traffic) : Prop := ∃ n', n.Grown o.runner n' ∧ Twin n' o c g a

variable {n : Names} {c : Nat} {g a : Traffic} {k l : Call} {t u : Nat} (site : Site)

namespace Twin

/-- A passage makes alike moves in both. -/
theorem move (h : Twin n g c g a) {m m' : Move} (hm : n.Move m m') (hfound : m.finds = false ∨ g.runner.stack ≠ [])
    (hk : (n.after g.runner a.runner m).Call k l) : Leads n g c (g.move c k m) (a.move c l m') := by
  obtain ⟨hrunner, hdirective⟩ := h.runner.react hm hfound
  have hheard := hk.heard hrunner.run_inj (n.below_after g.runner a.runner m) h.runner hm
  have hk' : (n.after g.runner a.runner m).Call { k with responses := k.responses ++ k.heard g.runner m }
      { l with responses := l.responses ++ l.heard a.runner m' } :=
    { hk with responses := by rw [hk.responses, hheard] }
  refine ⟨n.after g.runner a.runner m, n.grown_after _ _ m, ?_⟩
  exact {
    runner := hrunner
    registry := h.registry
    files := h.files
    call := by
      simp only [Traffic.move, Function.update_self]
      exact .some ((hk'.asks hrunner hdirective).lands hrunner hdirective)
    pending := hrunner.duty hdirective
    same := rfl
    more := fun _ hf => hf
    others := fun _ hd => Function.update_of_ne hd _ _ }

theorem put (h : Twin n g c g a) (hk : n.Call k l) : Leads n g c (g.put c k) (a.put c l) := by
  refine ⟨n, n.grown_refl _, ?_⟩
  exact {
    runner := h.runner
    registry := h.registry
    files := h.files
    call := by
      simp only [Traffic.put, Function.update_self]
      exact .some hk
    pending := h.pending
    same := rfl
    more := fun _ hf => hf
    others := fun _ hd => Function.update_of_ne hd _ _ }

/-- Any move but one that tells what stands at an index. -/
theorem answer (h : Twin n g c g a) {m m' : Move} (hm : n.Move m m') (hfound : m.finds = false)
    (hk : n.Call k l) : Leads n g c (g.move c k m) (a.move c l m') :=
  h.move hm (.inl hfound) (hk.mono (n.below_after _ _ _))

end Twin
end Traffic
end Treeworks
