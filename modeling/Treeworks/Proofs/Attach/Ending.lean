import Treeworks.Proofs.Attach.Nested

/-! Attaching a finite value ends. Its leaves are attached from left to right, and the first that is no attacher fails
with an error of a type, unless it is a text: a text is gone into, and the texts of its symbols again, until the nesting
is used up. -/
namespace Treeworks

/-- Whether a value is a collection of values of any kind. -/
def Value.isCollection : Value → Bool
  | .list _ | .tuple _ | .set _ | .dict _ | .view _ => true
  | _ => false

/-- A finite value, with the items of its collections in the order in which they come. -/
inductive Pile
  | leaf (v : Value)
  | heap (v : Value) (items : List Pile)

namespace Pile

/-- The value that a pile is. -/
def value : Pile → Value
  | .leaf v => v
  | .heap v _ => v

mutual
/-- The leaves from left to right, each with its level. What has nothing in it is a leaf itself. -/
def leaves (level : Nat) : Pile → List (Nat × Value)
  | .leaf v => [(level, v)]
  | .heap v items => if items.isEmpty then [(level, v)] else leavesOf (level + 1) items

/-- The leaves of some items. -/
def leavesOf (level : Nat) : List Pile → List (Nat × Value)
  | [] => []
  | p :: rest => p.leaves level ++ leavesOf level rest
end

mutual
/-- Whether the collections have these items in a store. -/
def Stands (s : Store) : Pile → Prop
  | .leaf v => v.isCollection = false
  | .heap v items => v.isCollection = true ∧ s.elements? v = some (items.map value) ∧ StandAll s items

/-- Whether some items stand. -/
def StandAll (s : Store) : List Pile → Prop
  | [] => True
  | p :: rest => p.Stands s ∧ StandAll s rest
end

theorem leavesOf_eq (level : Nat) (items : List Pile) : leavesOf level items = items.flatMap (leaves level) := by
  induction items with
  | nil => rfl
  | cons p rest ih => rw [leavesOf, ih, List.flatMap_cons]

theorem standAll_iff {s : Store} {items : List Pile} : StandAll s items ↔ ∀ p ∈ items, p.Stands s := by
  induction items with
  | nil => simp [StandAll]
  | cons p rest ih => rw [StandAll, ih, List.forall_mem_cons]

theorem leaves_heap (level : Nat) (v : Value) {items : List Pile} (h : items ≠ []) :
    (heap v items).leaves level = items.flatMap (leaves (level + 1)) := by
  rw [leaves, if_neg (by simpa using h), leavesOf_eq]

/-- Some leaf comes first. -/
theorem leaves_ne_nil (p : Pile) (level : Nat) : p.leaves level ≠ [] := by
  cases p with
  | leaf v => simp [leaves]
  | heap v items =>
    cases items with
    | nil => simp [leaves]
    | cons p rest =>
      have hhead := leaves_ne_nil p (level + 1)
      simp [leaves, leavesOf, hhead]

/-- No leaf lies above its pile. -/
theorem level_le_of_mem (p : Pile) {level : Nat} {leaf : Nat × Value} (h : leaf ∈ p.leaves level) : level ≤ leaf.1 := by
  cases p with
  | leaf v => exact Nat.le_of_eq (congrArg Prod.fst (List.mem_singleton.mp h)).symm
  | heap v items =>
    by_cases hitems : items = []
    · subst hitems
      exact Nat.le_of_eq (congrArg Prod.fst (List.mem_singleton.mp h)).symm
    · rw [leaves_heap level v hitems] at h
      obtain ⟨p, hp, h⟩ := List.mem_flatMap.mp h
      exact Nat.le_of_succ_le (level_le_of_mem p h)

/-- A collection that is a leaf has nothing in it. -/
theorem Stands.elements?_of_mem {s : Store} {p : Pile} (hstands : p.Stands s) {level : Nat} {leaf : Nat × Value}
    (h : leaf ∈ p.leaves level) (hcollection : leaf.2.isCollection = true) : s.elements? leaf.2 = some [] := by
  cases p with
  | leaf v =>
    rw [List.mem_singleton.mp h] at hcollection
    exact absurd (hstands.symm.trans hcollection) Bool.false_ne_true
  | heap v items =>
    obtain ⟨-, helements, hall⟩ := hstands
    by_cases hitems : items = []
    · subst hitems
      rw [List.mem_singleton.mp h]
      exact helements
    · rw [leaves_heap level v hitems] at h
      obtain ⟨p, hp, h⟩ := List.mem_flatMap.mp h
      exact Stands.elements?_of_mem (standAll_iff.mp hall p hp) h hcollection

end Pile

namespace Work
variable {depth ware a f level : Nat} {options : List Value} {m m' : Machine} {v : Value}

/-! ### The leaves of a pile -/

/-- Below the nesting it makes no difference what is attached. -/
theorem attachInOrder_deep {leaves : List (Nat × Value)} (hne : leaves ≠ []) (hdeep : ∀ leaf ∈ leaves, depth ≤ leaf.1)
    (v : Value) : attachInOrder depth ware options leaves m = service 0 (.attach ware v options) m := by
  obtain ⟨i, m', hfails, -, -⟩ := raises_fail (α := Unit) .tooDeep m
  have hzero (v : Value) : service 0 (.attach ware v options) m = (.raised (.fault i), m') := hfails .idle
  cases leaves with
  | nil => exact absurd rfl hne
  | cons leaf rest =>
    rw [attachInOrder, Nat.sub_eq_zero_of_le (hdeep leaf (.head _)), hzero, hzero]
    rfl

/-- To attach a pile is to attach its leaves in order. -/
theorem attach_pile (p : Pile) {level : Nat} {m : Machine}
    (hstands : Along depth ware options (fun m => p.Stands m.store) (p.leaves level) m) :
    service (depth - level) (.attach ware p.value options) m = attachInOrder depth ware options (p.leaves level) m := by
  rcases Nat.eq_zero_or_pos (depth - level) with hzero | hpos
  · rw [hzero]
    refine (attachInOrder_deep (p.leaves_ne_nil level) (fun leaf hleaf => ?_) _).symm
    exact Nat.le_trans (Nat.le_of_sub_eq_zero hzero) (p.level_le_of_mem hleaf)
  obtain ⟨d, hd⟩ : ∃ d, depth - level = d + 1 := ⟨depth - level - 1, by omega⟩
  have hnext : d = depth - (level + 1) := by omega
  have hone (v : Value) : service (depth - level) (.attach ware v options) m =
      attachInOrder depth ware options [(level, v)] m := by
    rw [attachInOrder]
    rcases service (depth - level) (.attach ware v options) m with ⟨u | e | _, m₁⟩ <;> rfl
  cases p with
  | leaf v => exact hone v
  | heap v items =>
    by_cases hitems : items = []
    · subst hitems
      exact hone v
    rw [Pile.leaves_heap level v hitems] at hstands ⊢
    have hitem : ∀ p ∈ items, ∀ m, Along depth ware options (fun m => p.Stands m.store) (p.leaves (level + 1)) m →
        service d (.attach ware p.value options) m = attachInOrder depth ware options (p.leaves (level + 1)) m := by
      intro p hp m hm
      rw [hnext]
      exact attach_pile p hm
    obtain ⟨hcollection, helements, -⟩ := hstands.head
    rw [hd]
    change attach ware v options (service d) m = _
    by_cases hlist : ∃ i, v = .list i
    · obtain ⟨i, rfl⟩ := hlist
      have hrounds : 0 < rounds := by decide
      have hlist : m.store.list i = items.map Pile.value := Option.some.inj helements
      have hfuel : items.length < (m.store.list i).length + rounds := by
        rw [hlist, List.length_map]
        exact Nat.lt_add_of_pos_right hrounds
      have hgoes : attachItems ware options (.list i) ((m.store.list i).length + rounds) 0 (service d) m = _ :=
        attachItems_eq [] hfuel hitem
          (hstands.mono fun m h => ⟨Option.some.inj h.2.1, Pile.standAll_iff.mp h.2.2⟩)
      exact (attach_list ware i options (service d) m).trans hgoes
    · have hother : ∀ i, v ≠ .list i := fun i hi => hlist ⟨i, hi⟩
      -- Elements are gone through as long as there are as many as before.
      have hlength {s : Store} (h : s.elements? v = some (items.map Pile.value)) : s.length? v = some items.length := by
        have heq : s.length? v = (s.elements? v).map List.length := by
          cases v with
          | list i => exact absurd rfl (hother i)
          | _ => rfl
        rw [heq, h, Option.map_some, List.length_map]
      have hgoes : attachElements ware options v items.length (items.map Pile.value) (service d) m = _ :=
        attachElements_eq hitem (hstands.mono fun m h => ⟨hlength h.2.1, Pile.standAll_iff.mp h.2.2⟩)
      rw [attach_elements helements hother, List.length_map]
      exact hgoes

theorem attach_whole_pile {p : Pile} (hstands : Along depth ware options (fun m => p.Stands m.store) (p.leaves 0) m) :
    service depth (.attach ware p.value options) m = attachInOrder depth ware options (p.leaves 0) m :=
  attach_pile p hstands

/-! ### What a leaf comes to -/

/-- Whether an attacher ends when it is called, and attaches nothing itself; and whether so does asking for the
parameters of a step that it returns. -/
structure Obliging (depth ware a f : Nat) (options : List Value) (m : Machine) (v : Value) : Prop where
  callable : m.store.isCallable v = true
  ends : (service depth (.call v (m.store.given ware :: options) []) m).1 ≠ .spent
  adds : ∃ steps, m.Adds (service depth (.call v (m.store.given ware :: options) []) m).2 ware a f [] steps
  describes : ∀ {step m₁}, service depth (.call v (m.store.given ware :: options) []) m = (.done step, m₁) →
    m₁.store.isCallable step = true →
    (stepOf step (service (depth - 1)) (m₁.recorded a v)).1 ≠ .spent ∧
      (m₁.recorded a v).Adds (stepOf step (service (depth - 1)) (m₁.recorded a v)).2 ware a f [] []

/-- Whether a leaf is an attacher that ends, or what is neither callable nor iterable, or a text. -/
def Attachable (depth ware a f : Nat) (options : List Value) (level : Nat) (v : Value) (m : Machine) : Prop :=
  Obliging (depth - level - 1) ware a f options m v ∨ Inert m.store v ∨ ∃ t, v = .str t

/-- Those leaves that are neither collections nor texts. -/
def attachersOf (leaves : List (Nat × Value)) : List Value :=
  (leaves.map (·.2)).filter fun v => !v.isCollection && !v.isText

theorem attachersOf_cons (leaf : Nat × Value) (rest : List (Nat × Value)) :
    attachersOf (leaf :: rest) = attachersOf [leaf] ++ attachersOf rest := by
  rw [attachersOf, attachersOf, attachersOf, ← List.filter_append]
  rfl

/-- What attaching some leaves has come to: it has ended, and the first of them have been recorded, or all if none
failed. -/
structure EndedWith (ware a f : Nat) (leaves : List (Nat × Value)) (m : Machine) (out : Outcome Unit × Machine) : Prop where
  ends : out.1 ≠ .spent
  adds : ∃ attached steps, m.Adds out.2 ware a f attached steps ∧ attached <+: attachersOf leaves ∧
    (out.1 = .done () → attached = attachersOf leaves)

/-- An error by which nothing is recorded. -/
theorem EndedWith.of_raised {leaves : List (Nat × Value)} {e : Value} {steps : List Value}
    (h : m.Adds m' ware a f [] steps) : EndedWith ware a f leaves m (.raised e, m') :=
  ⟨by simp, [], steps, h, List.nil_prefix, by simp⟩

/-- An end by which all are recorded. -/
theorem EndedWith.of_all {leaves : List (Nat × Value)} {out : Outcome Unit} {steps : List Value} (hends : out ≠ .spent)
    (h : m.Adds m' ware a f (attachersOf leaves) steps) : EndedWith ware a f leaves m (out, m') :=
  ⟨hends, _, steps, h, List.prefix_rfl, fun _ => rfl⟩

/-- A collection or text with nothing in it is attached at once. -/
theorem attach_of_elements_nil (h : m.store.elements? v = some []) (σ : Service) :
    attach ware v options σ m = (.done (), m) := by
  by_cases hlist : ∃ i, v = .list i
  · obtain ⟨i, rfl⟩ := hlist
    have hempty : m.store.list i = [] := Option.some.inj h
    have hnone : (m.store.elements? (.list i)).bind (·[0]?) = none := by rw [h]; rfl
    obtain ⟨n, hn⟩ : ∃ n, rounds = n + 1 := ⟨rounds - 1, by decide⟩
    rw [attach_list, hempty, List.length_nil, Nat.zero_add, hn]
    exact attachItems_none hnone
  · rw [attach_elements h fun i hi => hlist ⟨i, hi⟩]
    rfl

/-- A text is gone into until the nesting is used up: its first symbol is a text again. -/
theorem raises_attach_text {t : String} (ht : t ≠ "") (ware : Nat) (options : List Value) (d : Nat) (m : Machine) :
    ∃ i m', service d (.attach ware (.str t) options) m = (.raised (.fault i), m') ∧ Aside m m' ∧
      (m'.store.fault i).detail = .plain .recursion := by
  induction d generalizing t with
  | zero =>
    obtain ⟨i, m', hfails, haside, hdetail⟩ := raises_fail (α := Unit) .tooDeep m
    exact ⟨i, m', hfails .idle, haside, hdetail⟩
  | succ d ih =>
    cases hsymbols : Text.symbols t with
    | nil => exact absurd (Text.symbols_eq_nil.mp hsymbols) ht
    | cons x xs =>
      obtain ⟨i, m', hraised, haside, hdetail⟩ := ih x.text_ne_empty
      have helements : m.store.elements? (.str t) = some (.str x.text :: xs.map fun x => .str x.text) := by
        rw [Store.elements?, hsymbols, List.map_cons]
      refine ⟨i, m', ?_, haside, hdetail⟩
      change attach ware (.str t) options (service d) m = _
      rw [attach_elements helements (by simp), attachElements]
      refine (bind_eq (α := Unit) _ _ _ _).trans ?_
      rw [serve, hraised]
      rfl

/-- An attacher that ends is recorded if its call returns. -/
theorem ended_of_obliging {d : Nat} (h : Obliging d ware a f options m v) :
    EndedWith ware a f [(level, v)] m (service (d + 1) (.attach ware v options) m) := by
  have hattacher : attachersOf [(level, v)] = [v] := by
    have hcallable := h.callable
    cases v <;> first | rfl | cases hcallable
  have hattach : service (d + 1) (.attach ware v options) m =
      ((serve (.call v (m.store.given ware :: options) []) : Work Value) >>= settleAttacher ware v) (service d) m :=
    attach_of_isCallable h.callable options _
  obtain ⟨steps, hown⟩ := h.adds
  have hends := h.ends
  have hdescribes := @h.describes
  rw [hattach.trans (bind_eq (α := Value) _ _ _ _), serve]
  rcases hcall : service d (.call v (m.store.given ware :: options) []) m with ⟨step | e | _, m₁⟩
  · rw [hcall] at hown
    have hrecorded := hown.trans (Machine.adds_recorded hown.equips v)
    rw [List.append_nil, List.nil_append] at hrecorded
    have hafter {out : Outcome Unit} {m' : Machine} {steps' : List Value} (hends : out ≠ .spent)
        (hadds : (m₁.recorded a v).Adds m' ware a f [] steps') : EndedWith ware a f [(level, v)] m (out, m') := by
      have hall := hrecorded.trans hadds
      rw [List.append_nil, ← hattacher] at hall
      exact .of_all hends hall
    -- The attacher has been recorded by now, whatever becomes of the step that it gave.
    by_cases hstep : step = .null
    · subst hstep
      show EndedWith ware a f [(level, v)] m (settleAttacher ware v .null (service d) m₁)
      rw [settleAttacher_null hown.equips]
      exact hafter (by simp) (.refl hrecorded.equips)
    obtain ⟨d, rfl⟩ : ∃ n, d = n + 1 := by
      cases d with
      | zero =>
        obtain ⟨i, m', hfails, -⟩ := raises_fail (α := Value) .tooDeep m
        cases hcall.symm.trans (hfails .idle)
      | succ d => exact ⟨d, rfl⟩
    show EndedWith ware a f [(level, v)] m (settleAttacher ware v step (service (d + 1)) m₁)
    rw [settleAttacher_eq hown.equips v hstep d, bind_eq]
    cases hcallable : (m₁.recorded a v).store.isCallable step with
    | false =>
      obtain ⟨i, m', hraises, haside, -⟩ := useStep_of_not_isCallable hcallable ware
      rw [hraises]
      exact hafter (by simp) (.of_aside hrecorded.equips haside)
    | true =>
      obtain ⟨hdescribed, hadds⟩ := hdescribes hcall hcallable
      rw [Nat.add_sub_cancel] at hdescribed hadds
      rw [useStep_of_isCallable hcallable, bind_eq]
      rcases hstepOf : stepOf step (service d) (m₁.recorded a v) with ⟨s | e | _, m₂⟩
      · rw [hstepOf] at hadds
        obtain ⟨m', k, hput, hregisters, -⟩ := putStep_adds hadds.equips s
        dsimp only
        rw [hput]
        exact hafter (by simp) (hadds.trans hregisters)
      · rw [hstepOf] at hadds
        exact hafter (by simp) hadds
      · rw [hstepOf] at hdescribed
        exact absurd rfl hdescribed
  · rw [hcall] at hown
    exact .of_raised hown
  · rw [hcall] at hends
    exact absurd rfl hends

/-- A leaf is recorded when its turn comes, or fails, or has nothing in it. -/
theorem ended_of_attachable (hequips : m.store.Equips ware a f)
    (h : Attachable depth ware a f options level v m ∨ m.store.elements? v = some []) :
    EndedWith ware a f [(level, v)] m (service (depth - level) (.attach ware v options) m) := by
  cases hdepth : depth - level with
  | zero =>
    obtain ⟨i, m', hfails, haside, -⟩ := raises_fail (α := Unit) .tooDeep m
    have hrun : service 0 (.attach ware v options) m = (.raised (.fault i), m') := hfails .idle
    rw [hrun]
    exact .of_raised (.of_aside hequips haside)
  | succ d =>
    have hnothing (helements : m.store.elements? v = some []) :
        EndedWith ware a f [(level, v)] m (service (d + 1) (.attach ware v options) m) := by
      have hnone : attachersOf [(level, v)] = [] := by
        cases v <;> first | rfl | cases helements
      have hrun : service (d + 1) (.attach ware v options) m = (.done (), m) :=
        attach_of_elements_nil helements (service d)
      rw [hrun]
      have hadds : m.Adds m ware a f (attachersOf [(level, v)]) [] := by
        rw [hnone]
        exact .refl hequips
      have hends : (.done () : Outcome Unit) ≠ .spent := by simp
      exact .of_all hends hadds
    rcases h with (hobliging | hinert | ⟨t, rfl⟩) | helements
    · rw [hdepth] at hobliging
      exact ended_of_obliging hobliging
    · obtain ⟨i, m', hraises, haside, -⟩ := raises_attach_of_inert hinert ware options
      have hrun : service (d + 1) (.attach ware v options) m = (.raised (.fault i), m') := hraises (service d)
      rw [hrun]
      exact .of_raised (.of_aside hequips haside)
    · by_cases ht : t = ""
      · subst ht
        exact hnothing rfl
      · obtain ⟨i, m', hraised, haside, -⟩ := raises_attach_text ht ware options (d + 1) m
        rw [hraised]
        exact .of_raised (.of_aside hequips haside)
    · exact hnothing helements

/-! ### What a pile comes to -/

theorem attachInOrder_of_done {rest : List (Nat × Value)}
    (h : (service (depth - level) (.attach ware v options) m).1.value?.isSome = true) :
    attachInOrder depth ware options ((level, v) :: rest) m =
      attachInOrder depth ware options rest (service (depth - level) (.attach ware v options) m).2 := by
  rw [attachInOrder]
  rcases hrun : service (depth - level) (.attach ware v options) m with ⟨u | e | _, m₁⟩
  · rfl
  · rw [hrun] at h
    cases h
  · rw [hrun] at h
    cases h

/-- Whether something is true of each leaf when its turn comes. -/
def EachTurn (depth ware : Nat) (options : List Value) (P : Nat → Value → Machine → Prop) :
    List (Nat × Value) → Machine → Prop
  | [], _ => True
  | (level, v) :: rest, m => P level v m ∧
    ∀ m', service (depth - level) (.attach ware v options) m = (.done (), m') → EachTurn depth ware options P rest m'

theorem eachTurn_cons {P : Nat → Value → Machine → Prop} {rest : List (Nat × Value)} (hP : P level v m)
    (hrest : EachTurn depth ware options P rest (service (depth - level) (.attach ware v options) m).2) :
    EachTurn depth ware options P ((level, v) :: rest) m := by
  refine ⟨hP, fun m' hm' => ?_⟩
  rw [hm'] at hrest
  exact hrest

/-- What is true of each leaf when its turn comes may rest on what is true along the leaves. -/
theorem EachTurn.along {P Q : Nat → Value → Machine → Prop} {R : Machine → Prop} {leaves : List (Nat × Value)}
    (h : EachTurn depth ware options P leaves m) (hR : Along depth ware options R leaves m)
    (hQ : ∀ leaf ∈ leaves, ∀ m, R m → P leaf.1 leaf.2 m → Q leaf.1 leaf.2 m) :
    EachTurn depth ware options Q leaves m := by
  induction leaves generalizing m with
  | nil => trivial
  | cons leaf rest ih =>
    refine ⟨hQ leaf (.head _) m hR.1 h.1, fun m' hm' => ?_⟩
    exact ih (h.2 m' hm') (hR.2 m' hm') fun leaf hleaf => hQ leaf (.tail _ hleaf)

/-- What is true of each leaf is true of those at the front. -/
theorem EachTurn.front {P : Nat → Value → Machine → Prop} {front rest : List (Nat × Value)}
    (h : EachTurn depth ware options P (front ++ rest) m) : EachTurn depth ware options P front m := by
  induction front generalizing m with
  | nil => trivial
  | cons leaf front ih => exact ⟨h.1, fun m' hm' => ih (h.2 m' hm')⟩

/-- Attaching leaves in order ends if it does for each when its turn comes. -/
theorem ended_attachInOrder {leaves : List (Nat × Value)} (hequips : m.store.Equips ware a f)
    (h : EachTurn depth ware options (fun level v m => Attachable depth ware a f options level v m ∨
      m.store.elements? v = some []) leaves m) :
    EndedWith ware a f leaves m (attachInOrder depth ware options leaves m) := by
  induction leaves generalizing m with
  | nil => exact .of_all (by simp) (.refl hequips)
  | cons leaf rest ih =>
    obtain ⟨level, v⟩ := leaf
    obtain ⟨hends, attached, steps, hadds, hprefix, hall⟩ := ended_of_attachable hequips h.1
    have hcons := attachersOf_cons (level, v) rest
    rw [attachInOrder]
    rcases hrun : service (depth - level) (.attach ware v options) m with ⟨u | e | _, m₁⟩
    · rw [hrun] at hadds hall
      obtain ⟨hends', attached', steps', hadds', hprefix', hall'⟩ := ih hadds.equips (h.2 m₁ hrun)
      refine ⟨hends', _, _, hadds.trans hadds', ?_, fun hdone => ?_⟩
      · rw [hcons, hall rfl]
        exact (List.prefix_append_right_inj _).mpr hprefix'
      · rw [hcons, hall rfl, hall' hdone]
    · rw [hrun] at hadds
      refine ⟨by simp, _, _, hadds, ?_, by simp⟩
      rw [hcons]
      exact hprefix.trans (List.prefix_append _ _)
    · rw [hrun] at hends
      exact absurd rfl hends

/-- Whether an error of a kind was raised once exactly some attachers had been recorded. -/
def RaisedAfter (ware a f : Nat) (attached : List Value) (kind : PlainKind) (m : Machine) (out : Outcome Unit × Machine) :
    Prop :=
  ∃ i m' steps, out = (.raised (.fault i), m') ∧ (m'.store.fault i).detail = .plain kind ∧ m.Adds m' ware a f attached steps

/-- What was raised is of one kind. -/
theorem RaisedAfter.kind_eq {attached attached' : List Value} {kind kind' : PlainKind} {out : Outcome Unit × Machine}
    (h : RaisedAfter ware a f attached kind m out) (h' : RaisedAfter ware a f attached' kind' m out) : kind = kind' := by
  obtain ⟨i, m₁, -, rfl, hdetail, -⟩ := h
  obtain ⟨j, m₂, -, heq, hdetail', -⟩ := h'
  cases heq
  exact FaultDetail.plain.inj (hdetail.symm.trans hdetail')

section
variable {p : Pile} {front rest : List (Nat × Value)} {m₁ : Machine} (hequips : m.store.Equips ware a f)
  (hstands : Along depth ware options (fun m => p.Stands m.store) (p.leaves 0) m)
  (hleaves : EachTurn depth ware options
    (fun level v m => v.isCollection = false → Attachable depth ware a f options level v m) (p.leaves 0) m)

include hstands hleaves in
/-- When its turn comes a leaf can be attached, or it is a collection with nothing in it. -/
theorem eachTurn_leaves : EachTurn depth ware options
    (fun level v m => Attachable depth ware a f options level v m ∨ m.store.elements? v = some []) (p.leaves 0) m :=
  hleaves.along hstands fun leaf hleaf m hstands hattachable => by
    cases hcollection : leaf.2.isCollection with
    | false => exact .inl (hattachable hcollection)
    | true => exact .inr (hstands.elements?_of_mem hleaf hcollection)

variable (hsplit : p.leaves 0 = front ++ (level, v) :: rest)
  (hfront : attachInOrder depth ware options front m = (.done (), m₁))

include hequips hstands hleaves hsplit hfront in
/-- Once some leaves at the front are attached, the attachers among them have been recorded. -/
theorem adds_of_front : ∃ steps, m.Adds m₁ ware a f (attachersOf front) steps := by
  have hturns := eachTurn_leaves hstands hleaves
  rw [hsplit] at hturns
  obtain ⟨-, attached, steps, hadds, -, hall⟩ := ended_attachInOrder hequips hturns.front
  rw [hfront] at hadds hall
  rw [hall rfl] at hadds
  exact ⟨steps, hadds⟩

include hstands hsplit hfront in
theorem attach_behind_front : service depth (.attach ware p.value options) m =
    attachInOrder depth ware options ((level, v) :: rest) m₁ := by
  rw [attach_whole_pile hstands, hsplit, attachInOrder_append, hfront]

include hequips hstands hleaves hsplit hfront in
/-- Where a leaf fails aside, the attachers before it have been recorded and nothing else. -/
theorem raisedAfter_of_leaf {kind : PlainKind} (hraised : ∃ i m', service (depth - level) (.attach ware v options) m₁ =
    (.raised (.fault i), m') ∧ Aside m₁ m' ∧ (m'.store.fault i).detail = .plain kind) :
    RaisedAfter ware a f (attachersOf front) kind m (service depth (.attach ware p.value options) m) := by
  obtain ⟨steps, hadds⟩ := adds_of_front hequips hstands hleaves hsplit hfront
  obtain ⟨i, m', hrun, haside, hdetail⟩ := hraised
  have hend := hadds.trans (.of_aside hadds.equips haside)
  rw [List.append_nil, List.append_nil] at hend
  refine ⟨i, m', steps, ?_, hdetail, hend⟩
  rw [attach_behind_front hstands hsplit hfront, attachInOrder, hrun]

end

/-- Attaching a finite value ends, and is attaching its leaves from left to right, if its collections stay as they are
meanwhile and each leaf is an attacher that ends and attaches nothing itself, or neither callable nor iterable, or a text. Once
the leaves before one are attached, the attachers among them have been recorded and nothing else; then what is neither
callable nor iterable fails with an error of a type, a text with one of the nesting, and a text with nothing in it is left
out. -/
theorem attach_pile_ends {p : Pile} (hequips : m.store.Equips ware a f)
    (hstands : Along depth ware options (fun m => p.Stands m.store) (p.leaves 0) m)
    (hleaves : EachTurn depth ware options
      (fun level v m => v.isCollection = false → Attachable depth ware a f options level v m) (p.leaves 0) m) :
    let out := service depth (.attach ware p.value options) m
    out = attachInOrder depth ware options (p.leaves 0) m ∧ EndedWith ware a f (p.leaves 0) m out ∧
      ∀ front level v rest m₁, p.leaves 0 = front ++ (level, v) :: rest →
        attachInOrder depth ware options front m = (.done (), m₁) →
        (∃ steps, m.Adds m₁ ware a f (attachersOf front) steps) ∧
        (Inert m₁.store v → level < depth → RaisedAfter ware a f (attachersOf front) .type m out) ∧
        (∀ t, v = .str t → t ≠ "" → RaisedAfter ware a f (attachersOf front) .recursion m out) ∧
        (v = .str "" → level < depth → out = attachInOrder depth ware options rest m₁) := by
  intro out
  have hout : out = attachInOrder depth ware options (p.leaves 0) m := attach_whole_pile hstands
  have hended := ended_attachInOrder hequips (eachTurn_leaves hstands hleaves)
  refine ⟨hout, hout ▸ hended, fun front level v rest m₁ hsplit hfront => ?_⟩
  refine ⟨adds_of_front hequips hstands hleaves hsplit hfront, fun hinert hlevel => ?_, fun t ht hne => ?_,
    fun hempty hlevel => ?_⟩
  · obtain ⟨d, hd⟩ : ∃ d, depth - level = d + 1 := ⟨depth - level - 1, by omega⟩
    obtain ⟨i, m', hraises, haside, hdetail⟩ := raises_attach_of_inert hinert ware options
    exact raisedAfter_of_leaf hequips hstands hleaves hsplit hfront ⟨i, m', hd ▸ hraises (service d), haside, hdetail⟩
  · subst ht
    exact raisedAfter_of_leaf hequips hstands hleaves hsplit hfront (raises_attach_text hne ware options _ m₁)
  · subst hempty
    obtain ⟨d, hd⟩ : ∃ d, depth - level = d + 1 := ⟨depth - level - 1, by omega⟩
    have hrun : service (d + 1) (.attach ware (.str "") options) m₁ = (.done (), m₁) := attach_of_elements_nil rfl (service d)
    exact (attach_behind_front hstands hsplit hfront).trans (by rw [attachInOrder, hd, hrun])

/-- What is neither callable nor a text is refused, if it is plain. -/
theorem inert_of_isScalar (s : Store) (hscalar : v.isScalar = true) (htext : v.isText = false) : Inert s v := by
  refine ⟨?_, ?_, htext, fun i hi => ?_, fun x hx => ?_⟩
  · cases v <;> first | rfl | cases hscalar
  · cases v <;> first | rfl | (cases hscalar; done) | cases htext
  · rw [hi] at hscalar
    cases hscalar
  · rw [Store.instance?_of_isScalar hscalar] at hx
    cases hx

/-- An attacher whose call returns what is no step is obliging if the call attaches nothing. -/
theorem obliging_of_call {d : Nat} {called : Outcome Value × Machine}
    (hcalled : service d (.call v (m.store.given ware :: options) []) m = called)
    (hcallable : m.store.isCallable v = true) (step : Value) (hstep : called.1.value? = some step)
    (hnot : called.2.store.isCallable step = false) (steps : List Value) (hadds : m.Adds called.2 ware a f [] steps) :
    Obliging d ware a f options m v where
  callable := hcallable
  ends := by
    rw [hcalled]
    intro hspent
    rw [hspent] at hstep
    cases hstep
  adds := ⟨steps, by rw [hcalled]; exact hadds⟩
  describes := by
    intro step' m₁ hdone hsome
    rw [hdone] at hcalled
    subst hcalled
    cases hstep
    cases hnot.symm.trans hsome

end Work

/-- The machine with two attachers that give nothing: one in a list, with an empty tuple and an empty text behind it, a
dictionary that has the other as its key, and a number; one behind a text. -/
def Machine.pilebench : Machine :=
  { Machine.workbench with
    store := { Machine.workbench.store with
      lists := #[#[], #[], #[.function 5, .tuple 0, .str "", .dict 0, .int 3, .function 7], #[.function 5, .str "x", .function 7]]
      tuples := #[[]]
      dicts := #[[(.function 7, .null)]] } }

/-- The first list. -/
def Pile.bench : Pile :=
  .heap (.list 2) [.leaf (.function 5), .heap (.tuple 0) [], .leaf (.str ""), .heap (.dict 0) [.leaf (.function 7)],
    .leaf (.int 3), .leaf (.function 7)]

namespace Work

/-- The number fails when both attachers before it have been recorded. -/
theorem attach_pile_ends_bench :
    RaisedAfter 0 1 0 [.function 5, .function 7] .type .pilebench (service 20 (.attach 0 (.list 2) [.str "o"]) .pilebench) := by
  let m₀ : Machine := .pilebench
  let m₁ := (service 19 (.attach 0 (.function 5) [.str "o"]) m₀).2
  let m₂ := (service 19 (.attach 0 (.tuple 0) [.str "o"]) m₁).2
  let m₃ := (service 19 (.attach 0 (.str "") [.str "o"]) m₂).2
  let m₄ := (service 18 (.attach 0 (.function 7) [.str "o"]) m₃).2
  let m₅ := (service 19 (.attach 0 (.int 3) [.str "o"]) m₄).2
  let m₆ := (service 19 (.attach 0 (.function 7) [.str "o"]) m₅).2
  let stands (m : Machine) : Prop := m.store.list 2 = m₀.store.list 2 ∧ m.store.tuple 0 = [] ∧
    (m.store.dict 0).keys = [.function 7]
  have hstands : stands m₀ ∧ stands m₁ ∧ stands m₂ ∧ stands m₃ ∧ stands m₄ ∧ stands m₅ ∧ stands m₆ := by decide +kernel
  obtain ⟨h₀, h₁, h₂, h₃, h₄, h₅, h₆⟩ := hstands
  have halong : Along 20 0 [.str "o"] (fun m => Pile.bench.Stands m.store) (Pile.bench.leaves 0) m₀ := by
    have hall {m : Machine} (h : stands m) : Pile.bench.Stands m.store :=
      ⟨rfl, congrArg some h.1, rfl, ⟨rfl, congrArg some h.2.1, trivial⟩, rfl, ⟨rfl, congrArg some h.2.2, rfl, trivial⟩, rfl,
        rfl, trivial⟩
    exact along_cons (hall h₀) (along_cons (hall h₁) (along_cons (hall h₂) (along_cons (hall h₃) (along_cons (hall h₄)
      (along_cons (hall h₅) (hall h₆))))))
  have hleaves : EachTurn 20 0 [.str "o"] (fun level v m => v.isCollection = false →
      Attachable 20 0 1 0 [.str "o"] level v m) (Pile.bench.leaves 0) m₀ := by
    refine eachTurn_cons (fun _ => .inl ?_) (eachTurn_cons (fun h => ?_) (eachTurn_cons (fun _ => .inr (.inr ⟨"", rfl⟩))
      (eachTurn_cons (fun _ => .inl ?_) (eachTurn_cons (fun _ => .inr (.inl (inert_of_isScalar _ rfl rfl)))
        (eachTurn_cons (fun _ => .inl ?_) trivial)))))
    · exact obliging_of_call rfl (by decide +kernel) .null (by decide +kernel) (by decide +kernel) [] (by decide +kernel)
    · cases h
    · exact obliging_of_call rfl (by decide +kernel) .null (by decide +kernel) (by decide +kernel) [] (by decide +kernel)
    · exact obliging_of_call rfl (by decide +kernel) .null (by decide +kernel) (by decide +kernel) [] (by decide +kernel)
  have hequips : m₀.store.Equips 0 1 0 := by decide +kernel
  obtain ⟨-, -, hsplits⟩ := attach_pile_ends (p := Pile.bench) hequips halong hleaves
  let front : List (Nat × Value) := [(1, .function 5), (1, .tuple 0), (1, .str ""), (2, .function 7)]
  have hfront : attachInOrder 20 0 [.str "o"] front m₀ = (.done (), m₄) :=
    (attachInOrder_of_done (by decide +kernel)).trans ((attachInOrder_of_done (by decide +kernel)).trans
      ((attachInOrder_of_done (by decide +kernel)).trans (attachInOrder_of_done (by decide +kernel))))
  exact (hsplits front 1 (.int 3) [(1, .function 7)] m₄ rfl hfront).2.1 (inert_of_isScalar _ rfl rfl) (by decide)

/-- The text fails with an error of the nesting, and not with one of a type. -/
theorem attach_text_amiss :
    let out := service 20 (.attach 0 (.list 3) [.str "o"]) .pilebench
    ¬ RaisedAfter 0 1 0 [.function 5] .type .pilebench out ∧ RaisedAfter 0 1 0 [.function 5] .recursion .pilebench out := by
  intro out
  let m₀ : Machine := .pilebench
  let m₁ := (service 19 (.attach 0 (.function 5) [.str "o"]) m₀).2
  let p : Pile := .heap (.list 3) [.leaf (.function 5), .leaf (.str "x"), .leaf (.function 7)]
  have hraised := raises_attach_text (t := "x") (by decide) 0 [.str "o"] 19 m₁
  have hends (m' : Machine) : service 19 (.attach 0 (.str "x") [.str "o"]) m₁ ≠ (.done (), m') := by
    intro hdone
    obtain ⟨i, m'', hrun, -⟩ := hraised
    cases hrun.symm.trans hdone
  have hstands : m₀.store.list 3 = [.function 5, .str "x", .function 7] ∧ m₁.store.list 3 = m₀.store.list 3 := by
    decide +kernel
  have halong : Along 20 0 [.str "o"] (fun m => p.Stands m.store) (p.leaves 0) m₀ := by
    have hall {m : Machine} (h : m.store.list 3 = m₀.store.list 3) : p.Stands m.store :=
      ⟨rfl, congrArg some (h.trans hstands.1), rfl, rfl, rfl, trivial⟩
    exact along_cons (hall rfl) ⟨hall hstands.2, fun m' hm' => absurd hm' (hends m')⟩
  have hleaves : EachTurn 20 0 [.str "o"] (fun level v m => v.isCollection = false →
      Attachable 20 0 1 0 [.str "o"] level v m) (p.leaves 0) m₀ := by
    refine eachTurn_cons (fun _ => .inl ?_) ⟨fun _ => .inr (.inr ⟨"x", rfl⟩), fun m' hm' => absurd hm' (hends m')⟩
    exact obliging_of_call rfl (by decide +kernel) .null (by decide +kernel) (by decide +kernel) [] (by decide +kernel)
  have hequips : m₀.store.Equips 0 1 0 := by decide +kernel
  have hfront : attachInOrder 20 0 [.str "o"] [(1, .function 5)] m₀ = (.done (), m₁) :=
    attachInOrder_of_done (by decide +kernel)
  have hrecursion : RaisedAfter 0 1 0 [.function 5] .recursion m₀ out :=
    raisedAfter_of_leaf (p := p) hequips halong hleaves rfl hfront hraised
  refine ⟨fun htype => ?_, hrecursion⟩
  cases htype.kind_eq hrecursion

end Work
end Treeworks
