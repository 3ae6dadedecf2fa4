import Treeworks.Proofs.Slot.Calls

/-! What a compiler finds when it is built. A compiler is handed the file, the settings and the processor, and reads the
slot of the file; the tree that the call has chosen is not handed on. Whether the two are the same depends on what stood
in the slot. -/
namespace Treeworks

/-- Whether a class is a family of processors. -/
def Store.isFamily (s : Store) (type : Nat) : Bool :=
  match (s.type type).role with
  | .family => true
  | _ => false

/-- Whether a request is a call of a method that families are born with, for a processor. -/
def Request.isCall (method : String) (m : Machine) : Request → Bool
  | .invoke (.inborn type name (.processor _)) _ => decide (name = method) && m.store.isFamily type
  | _ => false

/-- Whether a request builds a parser or a compiler of a processor for a file. -/
def Request.builds (f p : Nat) : Request → Bool
  | .call _ [.file g, _, .processor q] [] => decide (g = f ∧ q = p)
  | _ => false

/-- Whether work has come to no end. -/
def Outcome.isSpent {α : Type} : Outcome α → Bool
  | .spent => true
  | _ => false

namespace Service
variable (σ τ : Service)

/-- Some requests are done by the library's own code, over a service of its own, and all others by a service. -/
def own (mine : Machine → Request → Bool) : Service := fun r m => if mine m r then r.handle τ m else σ r m

/-- Work is left where something is built for a processor and a file. -/
def leaving (f p : Nat) : Service := fun r m => if r.builds f p then (.spent, m) else σ r m

/-- Compilers are made, and trees compiled, by the library's own code; work is left where the compiler is built. -/
def untilBuilt (f p : Nat) : Service :=
  let making := σ.own (σ.leaving f p) (Request.isCall "create_compiler")
  σ.own making (Request.isCall "stringify")

end Service

namespace Work
variable {m : Machine} {f p : Nat} {name : String} {names : Nat → Option String} {D : Discipline}

/-- A method that families are born with is done as the library does it. -/
theorem handle_call {type : Nat} (htype : m.store.isFamily type = true) {method : String}
    (hmethod : method ∉ ["__repr__", "default", "ensure"]) (args : List Value) (σ : Service) :
    (Request.invoke (.inborn type method (.processor p)) args).handle σ m =
      processorMethod method (.processor p) args σ m := by
  simp only [List.mem_cons, List.not_mem_nil, or_false, not_or] at hmethod
  obtain ⟨hrepr, hdefault, hensure⟩ := hmethod
  have hrole : (m.store.type type).role = .family := by
    unfold Store.isFamily at htype
    split at htype
    · assumption
    · cases htype
  show inbornMethod type method (.processor p) args σ m = _
  unfold inbornMethod
  rw [(gives_query _ m).bind_eq, hrole]
  dsimp only
  rw [if_neg hrepr]
  unfold familyMethod
  rw [if_neg hdefault, if_neg hensure]
  rfl

theorem eq_of_isCall {method : String} {r : Request} (hr : r.isCall method m = true) :
    ∃ type p args, r = .invoke (.inborn type method (.processor p)) args ∧ m.store.isFamily type = true := by
  unfold Request.isCall at hr
  split at hr
  · rename_i type name p args
    obtain ⟨hname, htype⟩ := Bool.and_eq_true_iff.mp hr
    exact ⟨type, p, args, by rw [of_decide_eq_true hname], htype⟩
  · cases hr

theorem keeps_own {σ τ : Service} {mine : Machine → Request → Bool} (hσ : ∀ r m, D.holds m (σ r m).2)
    (hmine : ∀ r m, mine m r = true → D.holds m (r.handle τ m).2) (r : Request) (m : Machine) :
    D.holds m (σ.own τ mine r m).2 := by
  unfold Service.own
  split
  · exact hmine r m ‹_›
  · exact hσ r m

theorem keeps_leaving {σ : Service} (hσ : ∀ r m, D.holds m (σ r m).2) (f p : Nat) (r : Request) (m : Machine) :
    D.holds m (σ.leaving f p r m).2 := by
  unfold Service.leaving
  split
  · exact D.refl m
  · exact hσ r m

/-- A parser or a compiler is made by no other means than what is asked for. -/
theorem keeps_createCompiler (p : Value) (args : List Value) :
    (processorMethod "create_compiler" p args).Keeps D := by
  unfold processorMethod
  split
  · exact absurd ‹_› (by decide)
  · split
    · exact keeps_fail _
    · exact keeps_createWorker _ _ _ _

theorem keeps_making {σ : Service} (hσ : ∀ r m, D.holds m (σ r m).2) (f p : Nat) (r : Request) (m : Machine) :
    D.holds m (σ.own (σ.leaving f p) (Request.isCall "create_compiler") r m).2 := by
  refine keeps_own hσ (fun r m hr => ?_) r m
  obtain ⟨type, q, args, rfl, htype⟩ := eq_of_isCall hr
  rw [handle_call htype (by decide)]
  exact keeps_createCompiler _ _ _ (keeps_leaving hσ f p) m

/-- Whether the first thing that work does is a request. -/
def Asks {α : Type} (w : Work α) (m : Machine) (r : Request) : Prop :=
  ∃ rest : r.Reply → Work α, ∀ σ, w σ m = (serve r >>= rest) σ m

theorem asks_serve (r : Request) (m : Machine) : (serve r).Asks m r := by
  refine ⟨pure, fun σ => ?_⟩
  rw [bind_eq]
  rcases h : serve r σ m with ⟨a | e | _, m'⟩ <;> rfl

theorem Asks.bind {α β : Type} {w : Work α} {r : Request} (h : w.Asks m r) (g : α → Work β) : (w >>= g).Asks m r := by
  obtain ⟨rest, hrest⟩ := h
  refine ⟨fun a => rest a >>= g, fun σ => ?_⟩
  rw [bind_eq, hrest, bind_eq, bind_eq]
  rcases h : serve r σ m with ⟨a | e | _, m'⟩ <;> rfl

theorem Gives.asks {α β : Type} {w : Work α} {a : α} {r : Request} {g : α → Work β} (hw : w.Gives m a m)
    (hg : (g a).Asks m r) : (w >>= g).Asks m r := by
  obtain ⟨rest, hrest⟩ := hg
  refine ⟨rest, fun σ => ?_⟩
  rw [hw.bind_eq, hrest]

/-- A method that a family is born with, and that nothing stands in for, is asked for as such. -/
theorem callMethod_inborn (h : m.store.Named p name) {method : String} {type : Nat}
    (hmember : m.store.member? (m.store.processor p).type method = some (.inborn type))
    (hfield : m.store.field? (m.store.processor p) method = none) (args : List Value) :
    (callMethod (.processor p) method args).Asks m (.invoke (.inborn type method (.processor p)) args) := by
  have hnone : m.store.typeAttr? (m.store.processor p).type method = none := by
    unfold Store.typeAttr?
    rw [hmember]
  have haccessor : (accessor? (.processor p) method "__get__").Gives m none m := by
    refine (gives_store m).bind fun σ => ?_
    dsimp only [Store.instance?, Option.bind_some]
    rw [hnone]
    rfl
  have hmethod : m.store.method (.processor p) method = .ok (.inborn type method (.processor p)) := by
    simp [Store.method, Store.instanceMethod, hmember, hfield]
  refine (gives_special_processor h.direct).asks (haccessor.asks ((gives_query _ m).asks ?_))
  rw [hmethod]
  exact asks_serve _ m

end Work

section
variable {m : Machine} {f p type : Nat} {name : String} {names : Nat → Option String}

/-- Nobody changes a tree that is parked on the file. -/
def Custom.quiet (f : Nat) (names : Nat → Option String) : Custom f names where
  allows m m' := m'.trees f = m.trees f
  trans h h' := h'.trans h
  steady _ h := h

/-- The tree that stands in a slot afterwards is the one that was chosen, unless one was given and another stood there
before. -/
theorem parkedTree_eq_chosenTree_iff {given parked : Value} :
    parkedTree given parked = chosenTree given parked ↔ given = .null ∨ parked = .null ∨ given = parked := by
  unfold parkedTree chosenTree
  by_cases hg : given = .null <;> by_cases hp : parked = .null <;> simp [hg, hp, eq_comm]

open Work in
/-- The last stage of a passage is a call of `stringify` with the tree of the passage. -/
theorem compileStage_asks (hm : Proper f names m) (hname : names p = some name) {c : Nat} {tree settings result : Value}
    (hpassage : m.store.passages.getD c default = ⟨.processor p, settings, .file f, tree, result⟩)
    (hmember : m.store.member? (m.store.processor p).type "stringify" = some (.inborn type))
    (hfield : m.store.field? (m.store.processor p) "stringify" = none) :
    (compileStage c).Asks m (.invoke (.inborn type "stringify" (.processor p)) [tree, .file f, settings]) ∧
      m.store.given? f "stringify" [tree, .file f, settings] = some tree := by
  have hread : (passage c).Gives m ⟨.processor p, settings, .file f, tree, result⟩ m :=
    fun σ => congrArg (fun x => (Outcome.done x, m)) hpassage
  refine ⟨hread.asks ((callMethod_inborn (hm.named hname) hmember hfield _).bind _), ?_⟩
  simp [Store.given?, Store.placed, Value.isFile, givenWith?]

section
variable {args : List Value} {given : Value} (hm : Proper f names m) (hname : names p = some name)
  (htype : m.store.isFamily type = true)
include hm hname htype

open Work in
/-- A call of `stringify` chooses its tree, and then has no more to do with it. -/
theorem stringify_chooses (hargs : args.length ≤ 3) (hgiven : m.store.given? f "stringify" args = some given)
    (hchosen : chosenTree given (m.trees f name) ≠ .null) :
    ∃ m₁, (∀ τ, (Request.invoke (.inborn type "stringify" (.processor p)) args).handle τ m = (do
        let _ ← resolveTree (.str name) given f
        compiled (.processor p) f (m.store.placed "stringify" args).2.2 : Work Value) τ m) ∧
      (resolveTree (.str name) given f).Gives m (chosenTree given (m.trees f name)) m₁ ∧ Proper f names m₁ ∧
      m₁.trees f = Function.update (m.trees f) name (parkedTree given (m.trees f name)) := by
  obtain ⟨m₁, hresolved, hbeside, htrees⟩ := gives_resolve hm.shelved hchosen
  refine ⟨m₁, fun τ => ?_, hresolved, (Abides.of_beside hm hbeside).proper, htrees⟩
  rw [handle_call htype (by decide)]
  exact call_eq hm hname (.inr rfl) hargs hgiven τ

open Work in
/-- As long as nobody else writes to the slots, they stay from the choice of the tree up to the building of the
compiler, or up to the end of a call that ends before. -/
theorem untilBuilt_trees {σ : Service} (hσ : ∀ r m, (Custom.quiet f names).discipline.holds m (σ r m).2)
    (hargs : args.length ≤ 3) (hgiven : m.store.given? f "stringify" args = some given)
    (hchosen : chosenTree given (m.trees f name) ≠ .null) :
    (σ.untilBuilt f p (.invoke (.inborn type "stringify" (.processor p)) args) m).2.trees f =
      Function.update (m.trees f) name (parkedTree given (m.trees f name)) := by
  obtain ⟨m₁, hcall, hresolved, hm₁, htrees⟩ := stringify_chooses hm hname htype hargs hgiven hchosen
  have hrest : σ.untilBuilt f p (.invoke (.inborn type "stringify" (.processor p)) args) m =
      compiled (.processor p) f (m.store.placed "stringify" args).2.2
        (σ.own (σ.leaving f p) (Request.isCall "create_compiler")) m₁ := by
    show Service.own _ _ _ _ _ = _
    rw [Service.own, if_pos (by simp [Request.isCall, htype]), hcall, hresolved.bind_eq]
  have hkept := keeps_compiled (D := (Custom.quiet f names).discipline) hname (m.store.placed "stringify" args).2.2 _
    (keeps_making hσ f p) m₁ hm₁
  rw [hrest]
  exact hkept.2.trans htrees

open Work in
/-- A call of `stringify` chooses the tree that is given, else the one in the slot. What a compiler finds in the slot
when it is built, or when the call ends before that, is the tree that stood there before, and only in an empty slot the
one that was given; this is the chosen tree unless one was given and another stood in the slot. The last stage of a
passage makes such a call with the tree of the passage. -/
theorem compiler_finds_parked {σ : Service} (hσ : ∀ r m, (Custom.quiet f names).discipline.holds m (σ r m).2)
    (hargs : args.length ≤ 3) (hgiven : m.store.given? f "stringify" args = some given)
    (hchosen : chosenTree given (m.trees f name) ≠ .null) :
    let r : Request := .invoke (.inborn type "stringify" (.processor p)) args
    let m' := (σ.untilBuilt f p r m).2
    (∃ m₀ m₁, (∀ τ, r.handle τ m = (do
        let _ ← resolveTree (.str name) given f
        compiled (.processor p) f (m.store.placed "stringify" args).2.2 : Work Value) τ m₀) ∧
      (resolveTree (.str name) given f).Gives m₀ (chosenTree given (m.trees f name)) m₁) ∧
    m'.trees f = Function.update (m.trees f) name (parkedTree given (m.trees f name)) ∧
    (m'.trees f name = chosenTree given (m.trees f name) ↔
      given = .null ∨ m.trees f name = .null ∨ given = m.trees f name) ∧
    ∀ c tree settings result, m.store.passages.getD c default = ⟨.processor p, settings, .file f, tree, result⟩ →
      m.store.member? (m.store.processor p).type "stringify" = some (.inborn type) →
      m.store.field? (m.store.processor p) "stringify" = none →
      (compileStage c).Asks m (.invoke (.inborn type "stringify" (.processor p)) [tree, .file f, settings]) ∧
        m.store.given? f "stringify" [tree, .file f, settings] = some tree := by
  intro r m'
  have hslot : m'.trees f = Function.update (m.trees f) name (parkedTree given (m.trees f name)) :=
    untilBuilt_trees hm hname htype hσ hargs hgiven hchosen
  obtain ⟨m₁, hcall, hresolved, -⟩ := stringify_chooses hm hname htype hargs hgiven hchosen
  refine ⟨⟨m, m₁, hcall, hresolved⟩, hslot, ?_, fun c tree settings result hpassage hmember hfield => ?_⟩
  · rw [hslot, Function.update_self]
    exact parkedTree_eq_chosenTree_iff
  · exact compileStage_asks hm hname hpassage hmember hfield

end

/-- Where every other request fails, work is left only where the compiler is built: it finds a tree that the call was
not given and has not chosen. -/
theorem compiler_misses_given :
    let r : Request := .invoke (.inborn 0 "stringify" (.processor 0)) [.str "new", .file 0]
    let built := (service 0).untilBuilt 0 0 r (.desk (.str "old"))
    built.1.isSpent = true ∧ built.2.trees 0 "n" = .str "old" ∧
      chosenTree (.str "new") ((Machine.desk (.str "old")).trees 0 "n") = .str "new" := by
  decide +kernel

theorem compiler_finds_parked_desk :
    let r : Request := .invoke (.inborn 0 "stringify" (.processor 0)) [.str "new", .file 0]
    ((service 0).untilBuilt 0 0 r (.desk .null)).2.trees 0 "n" = .str "new" := by
  have hfails : ∀ r m, (Custom.quiet 0 fun p => if p = 0 then some "n" else none).discipline.holds m
      (service 0 r m).2 := by
    intro r m
    exact Work.keeps_fail .tooDeep .idle (fun _ m => Discipline.refl _ m) m
  have htype : (Machine.desk .null).store.isFamily 0 = true := rfl
  have hargs : ([.str "new", .file 0] : List Value).length ≤ 3 := by decide
  have hgiven : (Machine.desk .null).store.given? 0 "stringify" [.str "new", .file 0] = some (.str "new") := rfl
  have hname : (if 0 = 0 then some "n" else none) = some "n" := rfl
  have hchosen : chosenTree (.str "new") ((Machine.desk .null).trees 0 "n") ≠ .null := by decide
  have hslot := (compiler_finds_parked (p := 0) (proper_desk .null) hname htype hfails hargs hgiven hchosen).2.1
  intro r
  rw [hslot]
  rfl

end
end Treeworks
