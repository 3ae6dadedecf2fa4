import Mathlib.Data.List.Nodup
import Treeworks.Signature

/-! Which arguments fit a parameter list, by counting alone: as many as it requires and no more than it accepts. What is
left after leading arguments counts the same way, and a step is called with a number of arguments that fits. -/
namespace Treeworks

/-- The place of a kind of parameter among the others. -/
def Passing.rank : Passing → Nat
  | .positional => 0
  | .ordinary => 1
  | .rest => 2
  | .keyword => 3
  | .keywordRest => 4

/-- Whether a parameter may stand before another one: the kinds come in their order, those without a default come first
among the ones that take an argument by position, and no two have the same name. -/
def Parameter.Before (p q : Parameter) : Prop :=
  p.passing.rank ≤ q.passing.rank ∧ (p.byPosition = true → q.byPosition = true → p.optional = true → q.optional = true) ∧
    p.name ≠ q.name

instance (p q : Parameter) : Decidable (p.Before q) :=
  inferInstanceAs (Decidable (_ ∧ _ ∧ _))

namespace Signature
variable {α : Type} {sig left : Signature} {name : String}

/-- Whether a parameter list can be written down. -/
def WellFormed (sig : Signature) : Prop := List.Pairwise Parameter.Before sig

instance : Decidable sig.WellFormed := inferInstanceAs (Decidable (List.Pairwise _ _))

/-- Whether at most the keyword parameter of a name is without a default. -/
def Demands (sig : Signature) (name : String) : Prop :=
  ∀ p ∈ sig, p.passing = .keyword → p.optional = false → p.name = name

instance : Decidable (sig.Demands name) := inferInstanceAs (Decidable (∀ p ∈ sig, _))

/-- Whether the arguments of a call fit. -/
def Binds (sig : Signature) (args : List α) (keywords : Table α) : Prop := ∃ bound, sig.bind args keywords = .ok bound

/-! ### Counting -/

/-- Those after so many all have a default just if no more than so many are without one. -/
theorem all_drop_optional {ps : List Parameter}
    (h : ps.Pairwise fun p q => p.optional = true → q.optional = true) (n : Nat) :
    (∀ p ∈ ps.drop n, p.optional = true) ↔ ps.countP (!·.optional) ≤ n := by
  induction ps generalizing n with
  | nil => simp
  | cons p ps ih =>
    obtain ⟨hp, hps⟩ := List.pairwise_cons.mp h
    cases n with
    | zero => simp [List.countP_eq_zero]
    | succ n =>
      rw [List.drop_succ_cons, ih hps]
      cases hoptional : p.optional with
      | false => simp [hoptional]
      | true =>
        have hnone : ps.countP (!·.optional) = 0 := by
          simpa [List.countP_eq_zero] using fun q hq => hp q hq hoptional
        simp [hoptional, hnone]

theorem required_eq (sig : Signature) : sig.required = (sig.filter Parameter.byPosition).countP (!·.optional) := by
  rw [List.countP_filter]
  exact List.countP_congr fun p _ => by rw [Bool.and_comm]

theorem required_le_accepted (sig : Signature) : sig.required ≤ sig.accepted :=
  List.countP_mono_left fun p _ h => by simp only [Bool.and_eq_true] at h; exact h.1

/-- No two parameters have one name. -/
theorem WellFormed.unique (h : sig.WellFormed) {p q : Parameter} (hp : p ∈ sig) (hq : q ∈ sig) (hname : p.name = q.name) :
    p = q := by
  have hnames : (sig.map (·.name)).Nodup := List.pairwise_map.mpr (h.imp fun hpq => hpq.2.2)
  exact List.inj_on_of_nodup_map hnames hp hq hname

/-! ### Calls that give one keyword at most -/

/-- The keywords of a call that gives a context to a list that asks for one. -/
def contextKeywords (sig : Signature) (name : String) : List String := if sig.hasKeyword name then [name] else []

/-- A keyword parameter is taken by no argument by position. -/
theorem WellFormed.ordinary_ne (h : sig.WellFormed) (hname : sig.hasKeyword name = true) {p : Parameter} (hp : p ∈ sig)
    (hordinary : p.passing = .ordinary) : p.name ≠ name := by
  obtain ⟨q, hq, hkeyword⟩ := List.any_eq_true.mp hname
  simp only [Bool.and_eq_true, decide_eq_true_eq] at hkeyword
  rintro rfl
  rw [h.unique hp hq hkeyword.2.symm, hkeyword.1] at hordinary
  cases hordinary

theorem not_contains_contextKeywords (h : sig.WellFormed) {p : Parameter} (hp : p ∈ sig)
    (hordinary : p.passing = .ordinary) : (sig.contextKeywords name).contains p.name = false := by
  unfold contextKeywords
  split
  · rename_i hname
    simpa using h.ordinary_ne hname hp hordinary
  · rfl

theorem keywordMisfit?_contextKeywords (h : sig.WellFormed) (given : Nat) (name : String) :
    sig.keywordMisfit? given (sig.contextKeywords name) = none := by
  have haccepts : ∀ k ∈ sig.contextKeywords name, sig.acceptsKeyword k = true := by
    intro k hk
    unfold contextKeywords at hk
    split at hk
    · rename_i hname
      rw [List.mem_singleton.mp hk]
      obtain ⟨q, hq, hkeyword⟩ := List.any_eq_true.mp hname
      refine List.any_eq_true.mpr ⟨q, hq, ?_⟩
      simp only [Bool.and_eq_true, decide_eq_true_eq] at hkeyword
      simp [hkeyword]
    · cases hk
  have hunknown : (sig.contextKeywords name).find?
      (fun k => !sig.any (·.passing = .keywordRest) && !sig.acceptsKeyword k) = none := by
    refine List.find?_eq_none.mpr fun k hk => ?_
    simp [haccepts k hk]
  unfold keywordMisfit?
  dsimp only
  rw [hunknown, Option.map_eq_none_iff, List.find?_eq_none]
  intro p hp
  have hmem : p ∈ sig := List.mem_of_mem_filter (List.mem_of_mem_take hp)
  simpa using fun hordinary => not_contains_contextKeywords h hmem hordinary

/-- The parameters that are left out of a call have defaults if the call gives as many arguments as are required. -/
theorem absent_eq_nil (h : sig.WellFormed) (given : Nat) (name : String) :
    ((sig.positions (sig.contextKeywords name)).drop given).filter (!·.2) = [] ↔ sig.required ≤ given := by
  have hordered : (sig.filter Parameter.byPosition).Pairwise fun p q => p.optional = true → q.optional = true := by
    refine (h.filter _).imp_of_mem fun hp hq hpq => ?_
    exact hpq.2.1 (List.of_mem_filter hp) (List.of_mem_filter hq)
  have hspared (p : Parameter) (hp : p ∈ sig) :
      (p.optional || (p.passing = .ordinary && (sig.contextKeywords name).contains p.name)) = p.optional := by
    by_cases hordinary : p.passing = .ordinary
    · rw [not_contains_contextKeywords h hp hordinary, Bool.and_false, Bool.or_false]
    · simp [hordinary]
  rw [required_eq, ← all_drop_optional hordered, List.filter_eq_nil_iff, positions, ← List.map_drop,
    List.forall_mem_map]
  refine forall₂_congr fun p hp => ?_
  rw [hspared p (List.mem_of_mem_filter (List.mem_of_mem_drop hp))]
  simp

theorem missingKeywords_contextKeywords (hdemands : sig.Demands name) :
    sig.missingKeywords (sig.contextKeywords name) = [] := by
  refine List.map_eq_nil_iff.mpr (List.filter_eq_nil_iff.mpr fun p hp => ?_)
  simp only [Bool.and_eq_true, decide_eq_true_eq, Bool.not_eq_true', not_and, Bool.not_eq_false]
  rintro ⟨hkeyword, hoptional⟩
  have hname : p.name = name := hdemands p hp hkeyword hoptional
  have hasked : sig.hasKeyword name = true := List.any_eq_true.mpr ⟨p, hp, by simp [hkeyword, hname]⟩
  simp [contextKeywords, hasked, hname]

/-- The arguments of a call fit if there are as many as are required, and no more than are accepted. -/
theorem misfit?_contextKeywords (h : sig.WellFormed) (hdemands : sig.Demands name) (given : Nat) :
    sig.misfit? given (sig.contextKeywords name) = none ↔
      sig.required ≤ given ∧ (given ≤ sig.accepted ∨ sig.hasRest = true) := by
  have habsent := absent_eq_nil h given name
  unfold misfit?
  dsimp only
  rw [keywordMisfit?_contextKeywords h, Option.none_or, missingKeywords_contextKeywords hdemands]
  by_cases hmany : sig.accepted < given
  · have hleast : sig.required ≤ given := Nat.le_of_lt (Nat.lt_of_le_of_lt sig.required_le_accepted hmany)
    cases hrest : sig.hasRest <;> simp [hmany, hleast, habsent.mpr hleast, Nat.not_le.mpr hmany]
  · by_cases hleast : sig.required ≤ given
    · simp [hmany, hleast, habsent.mpr hleast, Nat.not_lt.mp hmany]
    · have hsome := mt habsent.mp hleast
      simp [hmany, hleast, hsome]

/-! ### What is left after leading arguments -/

/-- Leading arguments take the first parameters, one each. Further ones are collected. -/
theorem afterLeading_eq {k : Nat} (h : afterLeading k sig = some left) : ∃ taken, sig = taken ++ left ∧
    (∀ p ∈ taken, p.byPosition = true) ∧
    (taken.length = k ∨ taken.length < k ∧ ∃ p rest, left = p :: rest ∧ p.passing = .rest) := by
  induction k generalizing sig with
  | zero =>
    cases h
    exact ⟨[], rfl, nofun, .inl rfl⟩
  | succ k ih =>
    cases sig with
    | nil => cases h
    | cons p sig =>
      unfold afterLeading at h
      split at h
      · rename_i hposition
        obtain ⟨taken, rfl, htaken, hcount⟩ := ih h
        refine ⟨p :: taken, rfl, by simpa [hposition] using htaken, ?_⟩
        exact hcount.imp (by simp) (fun hless => ⟨by simpa using hless.1, hless.2⟩)
      · split at h
        · rename_i hrest
          cases h
          exact ⟨[], rfl, nofun, .inr ⟨Nat.succ_pos k, p, sig, rfl, hrest⟩⟩
        · cases h

/-- Behind a parameter with a default no more arguments are required. -/
theorem WellFormed.required_eq_zero {taken : List Parameter} (h : WellFormed (taken ++ left)) {p : Parameter}
    (hp : p ∈ taken) (hposition : p.byPosition = true) (hoptional : p.optional = true) : left.required = 0 := by
  refine List.countP_eq_zero.mpr fun q hq hrequired => ?_
  simp only [Bool.and_eq_true, Bool.not_eq_true'] at hrequired
  have hmore := ((List.pairwise_append.mp h).2.2 p hp q hq).2.1 hposition hrequired.1 hoptional
  rw [hmore] at hrequired
  cases hrequired.2

theorem WellFormed.rank_le {p q : Parameter} (h : WellFormed (p :: sig)) (hq : q ∈ p :: sig) :
    p.passing.rank ≤ q.passing.rank := by
  rcases List.mem_cons.mp hq with rfl | hq
  · exact Nat.le_refl _
  · exact ((List.pairwise_cons.mp h).1 q hq).1

/-- Nor are they where further ones are collected, or behind. -/
theorem WellFormed.byPosition_eq_false {p q : Parameter} (h : WellFormed (p :: sig)) (hrank : 2 ≤ p.passing.rank)
    (hq : q ∈ p :: sig) : q.byPosition = false := by
  have hbehind := Nat.le_trans hrank (h.rank_le hq)
  unfold Parameter.byPosition
  cases hpassing : q.passing <;> rw [hpassing] at hbehind <;> first
    | rfl
    | exact absurd hbehind (by decide)

section
variable {k : Nat} (h : afterLeading k sig = some left)
include h

theorem WellFormed.afterLeading (hsig : sig.WellFormed) : left.WellFormed := by
  obtain ⟨taken, rfl, -, -⟩ := afterLeading_eq h
  exact (List.pairwise_append.mp hsig).2.1

theorem Demands.afterLeading (hsig : sig.Demands name) : left.Demands name := by
  obtain ⟨taken, rfl, -, -⟩ := afterLeading_eq h
  exact fun p hp => hsig p (List.mem_append_right taken hp)

theorem hasRest_afterLeading : left.hasRest = sig.hasRest := by
  obtain ⟨taken, rfl, htaken, -⟩ := afterLeading_eq h
  have hnone : taken.any (·.passing = .rest) = false := by
    refine List.any_eq_false.mpr fun p hp hrest => ?_
    have hposition := htaken p hp
    simp only [decide_eq_true_eq] at hrest
    simp [Parameter.byPosition, hrest] at hposition
  simp [hasRest, hnone]

theorem hasKeyword_afterLeading (name : String) : left.hasKeyword name = sig.hasKeyword name := by
  obtain ⟨taken, rfl, htaken, -⟩ := afterLeading_eq h
  have hnone : taken.any (fun p => p.passing = .keyword && p.name = name) = false := by
    refine List.any_eq_false.mpr fun p hp hkeyword => ?_
    have hposition := htaken p hp
    simp only [Bool.and_eq_true, decide_eq_true_eq] at hkeyword
    simp [Parameter.byPosition, hkeyword.1] at hposition
  unfold hasKeyword at *
  rw [List.any_append, hnone, Bool.false_or]

/-- Leading arguments count towards those that are required. -/
theorem required_afterLeading (hsig : sig.WellFormed) (n : Nat) : sig.required ≤ k + n ↔ left.required ≤ n := by
  obtain ⟨taken, rfl, htaken, hcount⟩ := afterLeading_eq h
  have hsplit : Signature.required (taken ++ left) = taken.countP (!·.optional) + left.required := by
    rw [required, List.countP_append]
    congr 1
    exact List.countP_congr fun p hp => by rw [htaken p hp, Bool.true_and]
  have hleast : taken.countP (!·.optional) ≤ taken.length := List.countP_le_length
  have hnone (hless : taken.countP (!·.optional) < k) : left.required = 0 := by
    rcases hcount with hlength | ⟨-, p, rest, rfl, hrest⟩
    · obtain ⟨p, hp, hoptional⟩ : ∃ p ∈ taken, p.optional = true := by
        by_contra hall
        push Not at hall
        have hrequired := List.countP_eq_length.mpr fun p hp => Bool.not_eq_true' _ ▸ eq_false_of_ne_true (hall p hp)
        exact absurd (hrequired.trans hlength) (Nat.ne_of_lt hless)
      exact hsig.required_eq_zero hp (htaken p hp) hoptional
    · have hright : WellFormed (p :: rest) := (List.pairwise_append.mp hsig).2.1
      refine List.countP_eq_zero.mpr fun q hq => ?_
      rw [hright.byPosition_eq_false (by rw [hrest]; decide) hq]
      exact Bool.false_ne_true
  have hlength : taken.length ≤ k := hcount.elim Nat.le_of_eq (fun hless => Nat.le_of_lt hless.1)
  rw [hsplit]
  rcases Nat.lt_or_eq_of_le (Nat.le_trans hleast hlength) with hless | hall
  · have hzero := hnone hless
    omega
  · omega

/-- Leading arguments count towards those that are accepted. -/
theorem accepted_afterLeading (hrest : sig.hasRest = false) (n : Nat) : k + n ≤ sig.accepted ↔ n ≤ left.accepted := by
  obtain ⟨taken, hsig, htaken, hcount⟩ := afterLeading_eq h
  have hlength : taken.length = k := by
    refine hcount.resolve_right fun ⟨_, p, rest, hleft, hp⟩ => ?_
    rw [← hasRest_afterLeading h, hleft] at hrest
    simp [hasRest, hp] at hrest
  have hsplit : sig.accepted = taken.length + left.accepted := by
    rw [hsig, accepted, List.countP_append, List.countP_eq_length.mpr htaken]
    rfl
  omega

/-- A call with leading arguments fits if the other ones fit what is left after them. -/
theorem misfit?_afterLeading (hsig : sig.WellFormed) (hdemands : sig.Demands name) (n : Nat) :
    sig.misfit? (k + n) (sig.contextKeywords name) = none ↔ left.misfit? n (left.contextKeywords name) = none := by
  rw [misfit?_contextKeywords hsig hdemands, misfit?_contextKeywords (hsig.afterLeading h) (hdemands.afterLeading h),
    required_afterLeading h hsig, hasRest_afterLeading h]
  cases hrest : sig.hasRest with
  | true => simp
  | false => rw [accepted_afterLeading h hrest]

end

/-- Leading arguments can be fixed one after the other. -/
theorem afterLeading_add (m n : Nat) (sig : Signature) :
    afterLeading (m + n) sig = (afterLeading m sig).bind (afterLeading n) := by
  induction m generalizing sig with
  | zero => simp [afterLeading]
  | succ m ih =>
    rw [Nat.add_right_comm]
    cases sig with
    | nil => rfl
    | cons p sig =>
      change (if p.byPosition then afterLeading (m + n) sig else if p.passing = .rest then some (p :: sig) else none) =
        (if p.byPosition then afterLeading m sig else if p.passing = .rest then some (p :: sig) else none).bind
          (afterLeading n)
      by_cases hposition : p.byPosition = true
      · simp only [hposition, if_true, ih]
      · by_cases hrest : p.passing = .rest
        · cases n with
          | zero => simp [hposition, hrest, afterLeading]
          | succ n => simp [hposition, hrest, afterLeading]
        · simp [hposition, hrest]

theorem afterFirst_eq (sig : Signature) : sig.afterFirst = afterLeading 1 sig := by
  cases sig <;> rfl

theorem afterKeywords_nil (sig : Signature) : afterKeywords [] sig = sig := by
  induction sig with
  | nil => rfl
  | cons p sig ih => simp [afterKeywords, ih]

theorem afterFixed_nil (leading : Nat) (sig : Signature) : sig.afterFixed leading [] = afterLeading leading sig := by
  have hmisfit : sig.keywordMisfit? leading [] = none := by simp [keywordMisfit?]
  unfold afterFixed
  rw [hmisfit]
  cases afterLeading leading sig <;> simp [afterKeywords_nil]

/-- Which leading arguments a list takes: as many as it accepts, or any number if it collects the rest. -/
theorem afterLeading_isSome (h : sig.WellFormed) (k : Nat) :
    (afterLeading k sig).isSome = true ↔ k ≤ sig.accepted ∨ sig.hasRest = true := by
  induction k generalizing sig with
  | zero => simp [afterLeading]
  | succ k ih =>
    cases sig with
    | nil => simp [afterLeading, accepted, hasRest]
    | cons p sig =>
      unfold afterLeading
      by_cases hposition : p.byPosition = true
      · have hpassing : p.passing ≠ .rest := by
          intro hrest
          simp [Parameter.byPosition, hrest] at hposition
        simp [hposition, hpassing, ih (List.pairwise_cons.mp h).2, accepted, hasRest]
      · by_cases hrest : p.passing = .rest
        · simp [hposition, hrest, hasRest]
        · have hrank : 2 < p.passing.rank := by
            unfold Parameter.byPosition at hposition
            cases hpassing : p.passing <;> simp_all [Passing.rank]
          have hnone : accepted (p :: sig) = 0 := by
            refine List.countP_eq_zero.mpr fun q hq => ?_
            rw [h.byPosition_eq_false (Nat.le_of_lt hrank) hq]
            decide
          have hcollected : hasRest (p :: sig) = false := by
            refine List.any_eq_false.mpr fun q hq hq' => ?_
            simp only [decide_eq_true_eq] at hq'
            have hbefore := h.rank_le hq
            rw [hq'] at hbefore
            exact absurd hrank (Nat.not_lt.mpr hbefore)
          simp [hposition, hrest, hnone, hcollected]

/-! ### Parameters -/

/-- A keyword parameter holds what is given under its name. -/
theorem named_mem_fill {keywords strays : Table α} {v : α} (hgiven : keywords.get? name = some v)
    (hname : sig.hasKeyword name = true) (args : List α) : (name, .one v) ∈ fill keywords strays sig args := by
  induction sig generalizing args with
  | nil => cases hname
  | cons p sig ih =>
    rcases Bool.or_eq_true _ _ |>.mp hname with hhere | hlater
    · simp only [Bool.and_eq_true, decide_eq_true_eq] at hhere
      obtain ⟨hpassing, rfl⟩ := hhere
      have hnamed : fill.named keywords p.name = .one v := by rw [fill.named, hgiven]; rfl
      unfold fill
      rw [hpassing, hnamed]
      exact List.mem_cons_self
    · unfold fill
      split <;> exact List.mem_cons_of_mem _ (ih hlater _)

end Signature
end Treeworks
