import Treeworks.Proofs.Attach.Leaf

/-! Nested collections of attachers. To attach one is to attach its leaves from left to right, up to the first that
fails, each with as much less nesting as it lies deeper. -/
namespace Treeworks

/-- A nested collection, with the places of its lists and tuples. -/
inductive Nest
  | leaf (v : Value)
  | list (i : Nat) (items : List Nest)
  | tuple (i : Nat) (items : List Nest)

namespace Nest

/-- The value that a nested collection is. -/
def value : Nest → Value
  | .leaf v => v
  | .list i _ => .list i
  | .tuple i _ => .tuple i

mutual
/-- The leaves from left to right, each with its level. -/
def leaves (level : Nat) : Nest → List (Nat × Value)
  | .leaf v => [(level, v)]
  | .list _ items => leavesOf (level + 1) items
  | .tuple _ items => leavesOf (level + 1) items

/-- The leaves of some items. -/
def leavesOf (level : Nat) : List Nest → List (Nat × Value)
  | [] => []
  | n :: rest => n.leaves level ++ leavesOf level rest
end

mutual
/-- How deep the leaves lie at most. -/
def height : Nest → Nat
  | .leaf _ => 0
  | .list _ items => heightOf items + 1
  | .tuple _ items => heightOf items + 1

/-- How deep the leaves of some items lie at most. -/
def heightOf : List Nest → Nat
  | [] => 0
  | n :: rest => max n.height (heightOf rest)
end

mutual
/-- Whether the lists and tuples have these items in a store. -/
def Stands (s : Store) : Nest → Prop
  | .leaf _ => True
  | .list i items => s.list i = items.map value ∧ StandAll s items
  | .tuple i items => s.tuple i = items.map value ∧ StandAll s items

/-- Whether some items stand. -/
def StandAll (s : Store) : List Nest → Prop
  | [] => True
  | n :: rest => n.Stands s ∧ StandAll s rest
end

theorem leavesOf_eq (level : Nat) (items : List Nest) : leavesOf level items = items.flatMap (leaves level) := by
  induction items with
  | nil => rfl
  | cons n rest ih => rw [leavesOf, ih, List.flatMap_cons]

theorem standAll_iff {s : Store} {items : List Nest} : StandAll s items ↔ ∀ n ∈ items, n.Stands s := by
  induction items with
  | nil => simp [StandAll]
  | cons n rest ih => rw [StandAll, ih, List.forall_mem_cons]

theorem height_le_heightOf {n : Nest} {items : List Nest} (h : n ∈ items) : n.height ≤ heightOf items := by
  induction items with
  | nil => cases h
  | cons n' rest ih =>
    rw [heightOf]
    rcases List.mem_cons.mp h with rfl | h
    · exact Nat.le_max_left _ _
    · exact Nat.le_trans (ih h) (Nat.le_max_right _ _)

theorem mem_leavesOf {level : Nat} {items : List Nest} {leaf : Nat × Value} (h : leaf ∈ leavesOf level items) :
    ∃ n ∈ items, leaf ∈ n.leaves level := by
  rw [leavesOf_eq] at h
  exact List.mem_flatMap.mp h

/-- No leaf lies deeper than the height. -/
theorem level_le (n : Nest) {level : Nat} {leaf : Nat × Value} (h : leaf ∈ n.leaves level) :
    leaf.1 ≤ level + n.height := by
  cases n with
  | leaf v =>
    rw [List.mem_singleton.mp h]
    exact Nat.le_refl _
  | list i items =>
    obtain ⟨n, hn, h⟩ := mem_leavesOf h
    have hlevel := level_le n h
    have hheight := height_le_heightOf hn
    rw [height]
    omega
  | tuple i items =>
    obtain ⟨n, hn, h⟩ := mem_leavesOf h
    have hlevel := level_le n h
    have hheight := height_le_heightOf hn
    rw [height]
    omega

end Nest

namespace Work
variable {depth ware : Nat} {options : List Value} {m m' : Machine}

/-- Attaches leaves one after the other, up to the first that fails; one at a deeper level with so much less nesting. -/
def attachInOrder (depth ware : Nat) (options : List Value) : List (Nat × Value) → Machine → Outcome Unit × Machine
  | [], m => (.done (), m)
  | (level, v) :: rest, m =>
    match service (depth - level) (.attach ware v options) m with
    | (.done _, m) => attachInOrder depth ware options rest m
    | (.raised e, m) => (.raised e, m)
    | (.spent, m) => (.spent, m)

/-- Whether something is true of each machine from which the next leaf is attached, and of the one after the last. -/
def Along (depth ware : Nat) (options : List Value) (P : Machine → Prop) : List (Nat × Value) → Machine → Prop
  | [], m => P m
  | (level, v) :: rest, m => P m ∧
    ∀ m', service (depth - level) (.attach ware v options) m = (.done (), m') → Along depth ware options P rest m'

theorem Along.head {P : Machine → Prop} {leaves : List (Nat × Value)} (h : Along depth ware options P leaves m) : P m := by
  cases leaves with
  | nil => exact h
  | cons leaf rest => exact h.1

theorem along_cons {P : Machine → Prop} {level : Nat} {v : Value} {rest : List (Nat × Value)} (hP : P m)
    (hrest : Along depth ware options P rest (service (depth - level) (.attach ware v options) m).2) :
    Along depth ware options P ((level, v) :: rest) m := by
  refine ⟨hP, fun m' hm' => ?_⟩
  rw [hm'] at hrest
  exact hrest

theorem Along.mono {P Q : Machine → Prop} (hPQ : ∀ m, P m → Q m) {leaves : List (Nat × Value)}
    (h : Along depth ware options P leaves m) : Along depth ware options Q leaves m := by
  induction leaves generalizing m with
  | nil => exact hPQ m h
  | cons leaf rest ih => exact ⟨hPQ m h.1, fun m' hm' => ih (h.2 m' hm')⟩

/-- What is true along some leaves and others is true along the first, and along the others where they begin. -/
theorem Along.split {P : Machine → Prop} {leaves others : List (Nat × Value)}
    (h : Along depth ware options P (leaves ++ others) m) : Along depth ware options P leaves m ∧
      ∀ m', attachInOrder depth ware options leaves m = (.done (), m') → Along depth ware options P others m' := by
  induction leaves generalizing m with
  | nil =>
    refine ⟨h.head, fun m' hm' => ?_⟩
    cases hm'
    exact h
  | cons leaf rest ih =>
    obtain ⟨level, v⟩ := leaf
    obtain ⟨hhead, htail⟩ := h
    refine ⟨⟨hhead, fun m' hm' => (ih (htail m' hm')).1⟩, fun m' hm' => ?_⟩
    rw [attachInOrder] at hm'
    rcases hleaf : service (depth - level) (.attach ware v options) m with ⟨u | e | _, m₁⟩
    · rw [hleaf] at hm'
      exact (ih (htail m₁ hleaf)).2 m' hm'
    · rw [hleaf] at hm'
      cases hm'
    · rw [hleaf] at hm'
      cases hm'

/-- Leaves and others are attached by attaching the leaves, and then the others if none failed. -/
theorem attachInOrder_append (leaves others : List (Nat × Value)) (m : Machine) :
    attachInOrder depth ware options (leaves ++ others) m =
      match attachInOrder depth ware options leaves m with
      | (.done _, m) => attachInOrder depth ware options others m
      | (.raised e, m) => (.raised e, m)
      | (.spent, m) => (.spent, m) := by
  induction leaves generalizing m with
  | nil => rfl
  | cons leaf rest ih =>
    obtain ⟨level, v⟩ := leaf
    rw [List.cons_append, attachInOrder, attachInOrder]
    rcases service (depth - level) (.attach ware v options) m with ⟨u | e | _, m₁⟩
    · exact ih m₁
    · rfl
    · rfl

section
variable {k fuel : Nat} {v item : Value} {σ : Service}

/-- A list ends where there is no item. -/
theorem attachItems_none (h : (m.store.elements? v).bind (·[k]?) = none) :
    attachItems ware options v (fuel + 1) k σ m = (.done (), m) := by
  rw [attachItems, (gives_query _ m).bind_eq, h]
  rfl

/-- After an item the list goes on with the next. -/
theorem attachItems_some (h : (m.store.elements? v).bind (·[k]?) = some item) :
    attachItems ware options v (fuel + 1) k σ m =
      (serve (.attach ware item options) >>= fun _ => attachItems ware options v fuel (k + 1) : Work Unit) σ m := by
  rw [attachItems, (gives_query _ m).bind_eq, h]
  rfl

end

section
variable {ι : Type} {value : ι → Value} {leaves : ι → List (Nat × Value)} {stands : ι → Machine → Prop}
  {d i size : Nat} {v : Value} {rest : List ι}

/-- To attach a list from some item on is to attach the leaves of the items from there on. -/
theorem attachItems_eq (front : List ι) {fuel : Nat} (hfuel : rest.length < fuel)
    (hitem : ∀ n ∈ rest, ∀ m, Along depth ware options (stands n) (leaves n) m →
      service d (.attach ware (value n) options) m = attachInOrder depth ware options (leaves n) m)
    (hstands : Along depth ware options
      (fun m => m.store.list i = (front ++ rest).map value ∧ ∀ n ∈ rest, stands n m) (rest.flatMap leaves) m) :
    attachItems ware options (.list i) fuel front.length (service d) m =
      attachInOrder depth ware options (rest.flatMap leaves) m := by
  induction rest generalizing front fuel m with
  | nil =>
    obtain ⟨fuel, rfl⟩ : ∃ n, fuel = n + 1 := ⟨fuel - 1, by simp at hfuel; omega⟩
    have hlist : m.store.list i = front.map value := by simpa using hstands.head.1
    have hnone : (m.store.list i)[front.length]? = none := by
      rw [hlist]
      simp
    exact attachItems_none hnone
  | cons n rest ih =>
    obtain ⟨fuel, rfl⟩ : ∃ n, fuel = n + 1 := ⟨fuel - 1, by omega⟩
    obtain ⟨hlist, -⟩ := hstands.head
    have hsome : (m.store.elements? (.list i)).bind (·[front.length]?) = some (value n) := by
      show (m.store.list i)[front.length]? = _
      rw [hlist]
      simp
    obtain ⟨hhead, htail⟩ := hstands.split
    have hn := hitem n (.head _) m (hhead.mono fun m h => h.2 n (.head _))
    rw [attachItems_some hsome, List.flatMap_cons, attachInOrder_append, ← hn]
    refine (bind_eq (α := Unit) _ _ _ _).trans ?_
    rw [serve]
    rcases hrun : service d (.attach ware (value n) options) m with ⟨u | e | _, m₁⟩
    · -- The other items follow, from the machine that the leaves of this one led to.
      have hrest := htail m₁ (hn.symm.trans hrun)
      have hfront : (front ++ [n]).length = front.length + 1 := by simp
      have hgo := ih (front ++ [n]) (Nat.lt_of_succ_lt_succ hfuel) (fun n' hn' => hitem n' (.tail _ hn'))
        (hrest.mono fun m h => ⟨by simpa using h.1, fun n' hn' => h.2 n' (.tail _ hn')⟩)
      rw [hfront] at hgo
      exact hgo
    · rfl
    · rfl

/-- To attach the remaining elements of a collection that keeps its size is to attach their leaves. -/
theorem attachElements_eq
    (hitem : ∀ n ∈ rest, ∀ m, Along depth ware options (stands n) (leaves n) m →
      service d (.attach ware (value n) options) m = attachInOrder depth ware options (leaves n) m)
    (hstands : Along depth ware options
      (fun m => m.store.length? v = some size ∧ ∀ n ∈ rest, stands n m) (rest.flatMap leaves) m) :
    attachElements ware options v size (rest.map value) (service d) m =
      attachInOrder depth ware options (rest.flatMap leaves) m := by
  induction rest generalizing m with
  | nil => rfl
  | cons n rest ih =>
    obtain ⟨hhead, htail⟩ := hstands.split
    have hn := hitem n (.head _) m (hhead.mono fun m h => h.2 n (.head _))
    rw [List.map_cons, attachElements, List.flatMap_cons, attachInOrder_append, ← hn]
    refine (bind_eq (α := Unit) _ _ _ _).trans ?_
    rw [serve]
    rcases hrun : service d (.attach ware (value n) options) m with ⟨u | e | _, m₁⟩
    · have hrest := htail m₁ (hn.symm.trans hrun)
      show (query (·.length? v) >>= _) (service d) m₁ = _
      rw [(gives_query _ m₁).bind_eq, if_pos hrest.head.1]
      exact ih (fun n' hn' => hitem n' (.tail _ hn')) (hrest.mono fun m h => ⟨h.1, fun n' hn' => h.2 n' (.tail _ hn')⟩)
    · rfl
    · rfl

end

/-- To attach a list is to attach its items, as many as there are then. -/
theorem attach_list (ware i : Nat) (options : List Value) (σ : Service) (m : Machine) :
    attach ware (.list i) options σ m =
      attachItems ware options (.list i) ((m.store.list i).length + rounds) 0 σ m := by
  unfold attach
  have hcallable : ¬ m.store.isCallable (.list i) = true := Bool.false_ne_true
  rw [isCallable, (gives_query _ m).bind_eq, if_neg hcallable, (gives_query _ m).bind_eq]
  -- The number of rounds is not to be counted out.
  generalize rounds = n
  rfl

/-- To attach another collection is to attach the elements that it has before. -/
theorem attach_elements {v : Value} {items : List Value} (helements : m.store.elements? v = some items)
    (hlist : ∀ i, v ≠ .list i) (ware : Nat) (options : List Value) (σ : Service) :
    attach ware v options σ m = attachElements ware options v items.length items σ m := by
  have hcallable : ¬ m.store.isCallable v = true := by
    cases v <;> first | exact Bool.false_ne_true | cases helements
  unfold attach
  rw [isCallable, (gives_query _ m).bind_eq, if_neg hcallable, (gives_query _ m).bind_eq, helements]
  cases v with
  | list i => exact absurd rfl (hlist i)
  | future i => cases helements
  | _ => rfl

/-- To attach a nested collection is to attach its leaves in order. -/
theorem attach_eq_attachInOrder (n : Nest) {level : Nat} (hdepth : level + n.height < depth) {m : Machine}
    (hstands : Along depth ware options (fun m => n.Stands m.store) (n.leaves level) m) :
    service (depth - level) (.attach ware n.value options) m = attachInOrder depth ware options (n.leaves level) m := by
  obtain ⟨d, hd⟩ : ∃ d, depth - level = d + 1 := ⟨depth - level - 1, by omega⟩
  have hnext : d = depth - (level + 1) := by omega
  cases n with
  | leaf v =>
    rw [Nest.leaves, attachInOrder]
    change service (depth - level) (.attach ware v options) m = _
    rcases service (depth - level) (.attach ware v options) m with ⟨u | e | _, m₁⟩ <;> rfl
  | list i items =>
    rw [Nest.height] at hdepth
    rw [Nest.leaves, Nest.leavesOf_eq] at hstands ⊢
    have hitem : ∀ n ∈ items, ∀ m, Along depth ware options (fun m => n.Stands m.store) (n.leaves (level + 1)) m →
        service d (.attach ware n.value options) m = attachInOrder depth ware options (n.leaves (level + 1)) m := by
      intro n hn m hm
      have hheight := Nest.height_le_heightOf hn
      rw [hnext]
      exact attach_eq_attachInOrder n (by omega) hm
    have hlist : m.store.list i = items.map Nest.value := hstands.head.1
    have hrounds : 0 < rounds := by decide
    have hfuel : items.length < (m.store.list i).length + rounds := by
      rw [hlist, List.length_map]
      exact Nat.lt_add_of_pos_right hrounds
    have hgoes : attachItems ware options (.list i) ((m.store.list i).length + rounds) 0 (service d) m = _ :=
      attachItems_eq [] hfuel hitem (hstands.mono fun m h => ⟨h.1, Nest.standAll_iff.mp h.2⟩)
    rw [hd, ← hgoes]
    change attach ware (.list i) options (service d) m = _
    exact attach_list ware i options (service d) m
  | tuple i items =>
    rw [Nest.height] at hdepth
    rw [Nest.leaves, Nest.leavesOf_eq] at hstands ⊢
    have hitem : ∀ n ∈ items, ∀ m, Along depth ware options (fun m => n.Stands m.store) (n.leaves (level + 1)) m →
        service d (.attach ware n.value options) m = attachInOrder depth ware options (n.leaves (level + 1)) m := by
      intro n hn m hm
      have hheight := Nest.height_le_heightOf hn
      rw [hnext]
      exact attach_eq_attachInOrder n (by omega) hm
    have htuple : m.store.elements? (.tuple i) = some (items.map Nest.value) := congrArg some hstands.head.1
    -- A tuple does not change its size.
    have hgoes : attachElements ware options (.tuple i) items.length (items.map Nest.value) (service d) m = _ :=
      attachElements_eq hitem (hstands.mono fun m h =>
        ⟨(congrArg (fun items : List Value => some items.length) h.1).trans (by rw [List.length_map]),
          Nest.standAll_iff.mp h.2⟩)
    rw [hd, ← hgoes]
    change attach ware (.tuple i) options (service d) m = _
    rw [attach_elements htuple (fun _ => by simp), List.length_map]

/-! ### What attaching leaves comes to -/

variable {a f : Nat}

/-- Whether each leaf, when its turn comes, is neither callable nor iterable, or an attacher that adds to its ware and
does no more to it. -/
def Suit (depth ware a f : Nat) (options : List Value) : List (Nat × Value) → Machine → Prop
  | [], _ => True
  | (level, v) :: rest, m => (Inert m.store v ∨ Adding (depth - level - 2) ware a f options m v) ∧
    ∀ m', service (depth - level) (.attach ware v options) m = (.done (), m') → Suit depth ware a f options rest m'

theorem suit_cons {level : Nat} {v : Value} {rest : List (Nat × Value)} (hleaf : Adding (depth - level - 2) ware a f options m v)
    (hrest : Suit depth ware a f options rest (service (depth - level) (.attach ware v options) m).2) :
    Suit depth ware a f options ((level, v) :: rest) m := by
  refine ⟨.inr hleaf, fun m' hm' => ?_⟩
  rw [hm'] at hrest
  exact hrest

/-- What attaching leaves in order comes to, and which attachers and steps the ware has got by it: what each leaf adds
comes behind what those before it have added, and the first that fails is the last that is attached. -/
inductive AppliedAll (depth ware a f : Nat) (options : List Value) :
    List (Nat × Value) → Machine → Outcome Unit × Machine → List Value → List Value → Prop
  | nil (m : Machine) : AppliedAll depth ware a f options [] m (.done (), m) [] []
  | next {level v rest m m₁ out attached steps attached' steps'}
      (leaf : Applied (depth - level - 2) ware a f options m v (.done (), m₁) attached steps)
      (others : AppliedAll depth ware a f options rest m₁ out attached' steps') :
      AppliedAll depth ware a f options ((level, v) :: rest) m out (attached ++ attached') (steps ++ steps')
  | stops {level v rest m m₁ out attached steps}
      (leaf : Applied (depth - level - 2) ware a f options m v (out, m₁) attached steps) (fails : out ≠ .done ()) :
      AppliedAll depth ware a f options ((level, v) :: rest) m (out, m₁) attached steps

/-- Each leaf comes to what it comes to alone. -/
theorem appliedAll_attachInOrder {leaves : List (Nat × Value)} (hlevels : ∀ leaf ∈ leaves, leaf.1 + 2 ≤ depth)
    (hequips : m.store.Equips ware a f) (hsuit : Suit depth ware a f options leaves m) : ∃ attached steps,
    AppliedAll depth ware a f options leaves m (attachInOrder depth ware options leaves m) attached steps ∧
      m.Adds (attachInOrder depth ware options leaves m).2 ware a f attached steps := by
  induction leaves generalizing m with
  | nil => exact ⟨[], [], .nil m, .refl hequips⟩
  | cons leaf rest ih =>
    obtain ⟨level, v⟩ := leaf
    obtain ⟨hlevel, hlevels⟩ := List.forall_mem_cons.mp hlevels
    obtain ⟨hleaf, hrest⟩ := hsuit
    obtain ⟨d, hd⟩ : ∃ d, depth - level = d + 2 := ⟨depth - level - 2, by simp only at hlevel; omega⟩
    have happlied : ∃ attached steps, Applied (depth - level - 2) ware a f options m v
        (service (depth - level) (.attach ware v options) m) attached steps := by
      rw [hd] at hleaf ⊢
      rcases hleaf with hinert | hadding
      · exact ⟨[], [], applied_of_inert hequips hinert⟩
      · exact applied_of_adding hadding
    obtain ⟨attached, steps, happlied⟩ := happlied
    have hadds := happlied.adds
    rw [attachInOrder]
    rcases hrun : service (depth - level) (.attach ware v options) m with ⟨u | e | _, m₁⟩
    · rw [hrun] at happlied hadds
      obtain ⟨attached', steps', hothers, hadds'⟩ := ih hlevels hadds.equips (hrest m₁ hrun)
      exact ⟨_, _, .next happlied hothers, hadds.trans hadds'⟩
    · rw [hrun] at happlied hadds
      exact ⟨_, _, .stops happlied nofun, hadds⟩
    · rw [hrun] at happlied hadds
      exact ⟨_, _, .stops happlied nofun, hadds⟩

/-- To attach a nested collection is to attach its leaves from left to right, up to the first that fails. Each attacher
is called with the context of the ware, or with the ware, and with the options. By each the ware gets the attachers that
it attaches itself, then the attacher if its call returns; and the steps that it registers itself, then the one that it
returns. -/
theorem attach_nested (n : Nest) (hdepth : n.height + 2 ≤ depth) (hequips : m.store.Equips ware a f)
    (hstands : Along depth ware options (fun m => n.Stands m.store) (n.leaves 0) m)
    (hsuit : Suit depth ware a f options (n.leaves 0) m) :
    service depth (.attach ware n.value options) m = attachInOrder depth ware options (n.leaves 0) m ∧
      ∃ attached steps,
        AppliedAll depth ware a f options (n.leaves 0) m (service depth (.attach ware n.value options) m) attached steps ∧
        m.Adds (service depth (.attach ware n.value options) m).2 ware a f attached steps := by
  have hlevels : ∀ leaf ∈ n.leaves 0, leaf.1 + 2 ≤ depth := by
    intro leaf hleaf
    have hlevel := n.level_le hleaf
    omega
  have heq : service depth (.attach ware n.value options) m = attachInOrder depth ware options (n.leaves 0) m :=
    attach_eq_attachInOrder n (by omega) hstands
  rw [heq]
  exact ⟨rfl, appliedAll_attachInOrder hlevels hequips hsuit⟩

end Work

/-- A machine with a ware that takes attachers: one that attaches another and uses a step before it gives one, one that
gives nothing, one that gives what is no step, and one more. -/
def Machine.workbench : Machine :=
  { (default : Machine) with
    environment := [("inner", .function 1), ("attach", .function 4), ("step1", .function 2), ("step2", .function 3)]
    store := { (default : Store) with
      lists := #[#[], #[], #[.function 0, .tuple 1]]
      tuples := #[[], [.function 5, .function 6, .function 7]]
      functions := #[
        .script "outer" (Signature.ofTokens ["p", "*rest"]) .plain false false
          [.call "attach" [.ref "inner"], .use "p" (.ref "step1") [], .give (.ref "step2")],
        .script "inner" (Signature.ofTokens ["p", "*rest"]) .plain false false [],
        .script "step1" (Signature.ofTokens ["tree"]) .plain false false [],
        .script "step2" (Signature.ofTokens ["tree"]) .plain false false [],
        .bound "AttachWare.attach" (.ware 0 "attach"),
        .script "silent" (Signature.ofTokens ["p", "*rest"]) .plain false false [],
        .script "odd" (Signature.ofTokens ["p", "*rest"]) .plain false false [.give (.int 5)],
        .script "never" (Signature.ofTokens ["p", "*rest"]) .plain false false []]
      functionAttrs := #[[], [], [], [], [], [], [], []]
      runner := { (default : Runner) with
        wares := #[{ (default : Ware) with context := .null, steps := .list 0, attachers := some (.list 1) }] } } }

/-- A list of the first of them and a tuple of the others. -/
def Nest.workbench : Nest :=
  .list 2 [.leaf (.function 0), .tuple 1 [.leaf (.function 5), .leaf (.function 6), .leaf (.function 7)]]

namespace Work

/-- The third leaf fails, so the last one is not attached. -/
theorem attach_nested_workbench :
    let out := service 20 (.attach 0 (.list 2) [.str "o"]) .workbench
    out = attachInOrder 20 0 [.str "o"] [(1, .function 0), (2, .function 5), (2, .function 6), (2, .function 7)] .workbench ∧
      out.2.store.list 1 = [.function 1, .function 0, .function 5, .function 6] ∧
      out.2.store.list 0 = [.step 0, .step 1] := by
  intro out
  let m₀ : Machine := .workbench
  let m₁ := (service 19 (.attach 0 (.function 0) [.str "o"]) m₀).2
  let m₂ := (service 18 (.attach 0 (.function 5) [.str "o"]) m₁).2
  let m₃ := (service 18 (.attach 0 (.function 6) [.str "o"]) m₂).2
  let m₄ := (service 18 (.attach 0 (.function 7) [.str "o"]) m₃).2
  let stands (m : Machine) : Prop := m.store.list 2 = [.function 0, .tuple 1] ∧
    m.store.tuple 1 = [.function 5, .function 6, .function 7]
  have hstands : stands m₀ ∧ stands m₁ ∧ stands m₂ ∧ stands m₃ ∧ stands m₄ := by decide +kernel
  obtain ⟨h₀, h₁, h₂, h₃, h₄⟩ := hstands
  have halong : Along 20 0 [.str "o"] (fun m => Nest.workbench.Stands m.store) (Nest.workbench.leaves 0) m₀ := by
    have hall {m : Machine} (h : stands m) : Nest.workbench.Stands m.store :=
      ⟨h.1, trivial, ⟨h.2, trivial, trivial, trivial, trivial⟩, trivial⟩
    exact along_cons (hall h₀) (along_cons (hall h₁) (along_cons (hall h₂) (along_cons (hall h₃) (hall h₄))))
  have hsuit : Suit 20 0 1 0 [.str "o"] (Nest.workbench.leaves 0) m₀ := by
    refine suit_cons ?_ (suit_cons ?_ (suit_cons ?_ (suit_cons ?_ trivial)))
    · exact adding_of_call rfl (by decide +kernel) [.function 1] [.step 0] (by decide +kernel) (by decide +kernel)
    · exact adding_of_call rfl (by decide +kernel) [] [] (by decide +kernel) (by decide +kernel)
    · exact adding_of_call rfl (by decide +kernel) [] [] (by decide +kernel) (by decide +kernel)
    · exact adding_of_call rfl (by decide +kernel) [] [] (by decide +kernel) (by decide +kernel)
  have hequips : m₀.store.Equips 0 1 0 := by decide +kernel
  obtain ⟨heq, -⟩ := attach_nested .workbench (by decide +kernel) hequips halong hsuit
  exact ⟨heq, by decide +kernel, by decide +kernel⟩

end Work
end Treeworks
