import Treeworks.Answer
import Treeworks.Proofs.Default.Tending
import Treeworks.Proofs.Heed.Scripts

/-! Histories of families. Users ask for anything, build families and define classes, in any order. Every class keeps
the default that it has given, which is its own; calls of its methods go to that, and a call of the class itself never
gives it. -/
namespace Treeworks

/-- What users may wish: to ask for something, to build a family, or to define a class. -/
inductive Wish
  | ask (r : Request)
  | family (name parser compiler data : Value)
  | define (name : String) (module doc : Value) (bases : List Nat) (attrs : Table Value)

namespace Wish
variable {asked : Nat → Bool}

/-- What is done for a wish. -/
def work : Wish → Work Unit
  | ask r => do
    let _ ← Work.serve r
    return ()
  | family name parser compiler data => do
    let _ ← Work.newFamily name parser compiler data
    return ()
  | define name module doc bases attrs => do
    let i ← Work.perhaps fun s => s.newType name module doc bases attrs .plain
    Work.introduce i

/-- Whether no class is defined with a default, and none says how its instances are made or keeps slots. -/
def Plain : Wish → Prop
  | define _ _ _ _ attrs => ∀ name ∈ ["_default", "__new__", "__slots__"], attrs.get? name = none
  | _ => True

open Work in
theorem heeds_work {w : Wish} (hw : w.Plain) : w.work.Heeds (.defaults asked) := by
  cases w with
  | ask r => exact heeds_bind (heeds_request r) fun _ => heeds_pure _
  | family name parser compiler data => exact heeds_bind (heeds_newFamily _ _ _ _) fun _ => heeds_pure _
  | define name module doc bases attrs => exact heeds_bind (heeds_newType _ _ _ _ _ hw) fun i => heeds_introduce i

end Wish

namespace Crew
variable (crew : Crew) (asked : Nat → Bool) (depth : Nat) (m : Machine) (c : Nat)

/-- The machine after a history of wishes. -/
def course (wishes : List Wish) (m : Machine) : Machine :=
  wishes.foldl (fun m w => (w.work (crew.tended asked depth) m).2) m

open Work

/-- How a class gives its default. What it has noted is given, and nothing else is done. Or else the class is called
once, and notes the new instance that it gives; it had noted nothing meanwhile, unless it was asked for a default. -/
structure GivesDefault : Prop where
  known : ∀ {j}, m.store.Offers c "default" j → asked c = true → m.store.noted c ≠ .null →
    callMethod (.type c) "default" [] (crew.tended asked (depth + 1)) m = (.done (m.store.noted c), m)
  made : ∀ {j}, m.store.Offers c "default" j → asked c = true → m.store.noted c = .null →
    callMethod (.type c) "default" [] (crew.tended asked (depth + 1)) m = (do
      let v ← callClass c
      modifyStore fun s => s.note c v
      return v : Work Value) (crew.tended asked depth) m
  spare : ∀ {v m'}, callClass c (crew.tended asked depth) m = (.done v, m') →
    ∃ p, v = .processor p ∧ m.store.Spare m'.store p
  first : ∀ {asked' : Nat → Bool}, asked' c = false →
    (callClass c (crew.tended asked' depth) m).2.store.noted c = m.store.noted c

/-- How methods are called for a class. Those that do not give instances are called for what the class gives for its
default, and to look one up is nothing more. -/
structure Dispatches : Prop where
  ensure : ∀ {j} {args : List Value}, m.store.Offers c "ensure" j → args.length ≤ 1 →
    callMethod (.type c) "ensure" args (crew.tended asked (depth + 1)) m =
      if isInstance m.store (args.getD 0 .null) c then (.done (args.getD 0 .null), m)
      else callMethod (.type c) "default" [] (crew.tended asked depth) m
  method : ∀ {i j name} (args : List Value), m.store.Offers c "default" i → m.store.Offers c name j →
    name ∉ ["default", "ensure", "__repr__"] →
    callMethod (.type c) name args (crew.tended asked (depth + 1)) m =
      (callMethod (.type c) "default" [] >>= fun p => inbornMethod j name p args) (crew.tended asked depth) m
  access : ∀ {j name}, m.store.Offers c name j → name.toList.head? ≠ some '_' →
    (attr (.type c) name).Gives m (m.store.addFunction (methodValue c name j)).1
      { m with store := (m.store.addFunction (methodValue c name j)).2 }

/-- How a class is called. One of its instances comes back as it is, if it is prepared as families prepare theirs; for
anything else a new instance is made and prepared, which never becomes a default. -/
structure Constructs : Prop where
  same : ∀ {v args keywords}, Passes v args keywords → isInstance m.store v c = true →
    (∀ x, m.store.instance? v = some x → ∃ j, m.store.Offers x.type "__init__" j) →
    crew.tended asked (depth + 1) (.call (.type c) args keywords) m = (.done v, m)
  new : ∀ {v args keywords}, Passes v args keywords → isInstance m.store v c = false →
    crew.tended asked (depth + 1) (.call (.type c) args keywords) m =
      prepareNew c m.store.processors.size args keywords (crew.tended asked depth) (withInstance m c)
  never : ∀ {v args keywords w m'}, Passes v args keywords → isInstance m.store v c = false →
    crew.tended asked (depth + 1) (.call (.type c) args keywords) m = (.done w, m') →
    w = .processor m.store.processors.size ∧
      ∀ asked' depth' wishes, (∀ wish ∈ wishes, wish.Plain) → ∀ d, (crew.course asked' depth' wishes m').store.noted d ≠ w

variable {crew asked depth m c}

/-- Over every history, defaults are minded. -/
theorem minds_course (hcrew : crew.Heedful) (asked : Nat → Bool) (depth : Nat) {wishes : List Wish}
    (hwishes : ∀ wish ∈ wishes, wish.Plain) (hm : m.store.Tidy) :
    m.store.Minds asked (crew.course asked depth wishes m).store := by
  induction wishes generalizing m with
  | nil => exact hm.minds_of_settled (.refl _)
  | cons wish wishes ih =>
    have hfirst : m.store.Minds asked (wish.work (crew.tended asked depth) m).2.store :=
      (Wish.heeds_work (hwishes wish (.head _))).holds (minds_tended hcrew asked depth) m hm
    exact hfirst.trans (ih (fun _ h => hwishes _ (.tail _ h)) hfirst.tidy)

/-- What the library is asked for, it does itself. -/
theorem tended_succ {r : Request} (hr : r.isForeign m = false) (hasked : (r.asksFor? m.store).all asked = true) :
    crew.tended asked (depth + 1) r m = r.handle (crew.tended asked depth) m := by
  rw [tended]
  simp only [hr, hasked, Bool.false_eq_true, if_true, if_false]

theorem isForeign_of_offers (hc : m.store.descends c 0 = true) {j : Nat} {name : String}
    (hj : m.store.Offers c name j) (args : List Value) :
    Request.isForeign m (.invoke (.inborn j name (.type c)) args) = false := by
  simp [Request.isForeign, hj.2, Store.familyOf?, hc]

theorem asksFor?_of_ne {s : Store} {name : String} (h : name ≠ "default") {j : Nat} {receiver : Value}
    {args : List Value} : Request.asksFor? s (.invoke (.inborn j name receiver) args) = none := by
  unfold Request.asksFor?
  split
  · rename_i heq
    cases heq
    exact absurd rfl h
  · rfl

/-- A class that may be asked gives its default as families do. -/
theorem tended_default (hc : m.store.descends c 0 = true) {j : Nat} (hj : m.store.Offers c "default" j)
    (hasked : asked c = true) :
    callMethod (.type c) "default" [] (crew.tended asked (depth + 1)) m = defaultProcessor c (crew.tended asked depth) m := by
  rw [callMethod_type hj, tended_succ (isForeign_of_offers hc hj []) hasked]
  exact inbornMethod_of_family hj.2 _ _ _ _

theorem givesDefault_of_tidy (hcrew : crew.Heedful) (hm : m.store.Tidy) (hc : m.store.descends c 0 = true) :
    crew.GivesDefault asked depth m c where
  known hj hasked hnoted := by
    rw [tended_default hc hj hasked, defaultProcessor_known hnoted]
  made hj hasked hnoted := by
    rw [tended_default hc hj hasked, defaultProcessor_new hnoted, bind_eq]
    rcases callClass c (crew.tended asked depth) m with ⟨v | e | _, m'⟩ <;> rfl
  spare h := (minds_tended hcrew asked depth).makes hm hc h
  first {asked'} hasked := by
    have hminds := (minds_tended hcrew asked' depth).minds (.call (.type c) [] []) m hm
    by_cases hnoted : m.store.noted c = .null
    · rw [hnoted]
      by_contra hnew
      exact absurd ((hminds.fresh hnoted hnew).1) (by rw [hasked]; exact Bool.false_ne_true)
    · exact hminds.kept hnoted

theorem dispatches_of_tidy (hcrew : crew.Heedful) (hm : m.store.Tidy) (hc : m.store.descends c 0 = true) :
    crew.Dispatches asked depth m c where
  ensure {j args} hj hargs := by
    rw [callMethod_type hj, tended_succ (isForeign_of_offers hc hj args) (by rw [asksFor?_of_ne (by decide)]; rfl)]
    change inbornMethod j "ensure" (.type c) args (crew.tended asked depth) m = _
    rw [inbornMethod_of_family hj.2, if_neg (by decide), familyMethod_ensure hargs]
    exact ensureProcessor_eq _ _ _ _
  method {i j name} args hi hj hname := by
    have hdefault : name ≠ "default" := fun h => hname (h ▸ by simp)
    rw [callMethod_type hj, tended_succ (isForeign_of_offers hc hj args) (by rw [asksFor?_of_ne hdefault]; rfl)]
    exact inbornMethod_type (minds_tended hcrew asked depth) hm hc hi hj.2 hname args
  access := gives_attr_type

theorem constructs_of_tidy (hcrew : crew.Heedful) (hm : m.store.Tidy) (hc : m.store.descends c 0 = true) :
    crew.Constructs asked depth m c where
  same hpasses hv hinit := instantiate_of_isInstance hm hc hpasses hv hinit _
  new hpasses hv := instantiate_of_not_isInstance hm hc hpasses hv _
  never {v args keywords w m'} hpasses hv hw := by
    obtain ⟨rfl, hspare⟩ := spare_of_instantiate hm hc hpasses hv (minds_tended hcrew asked depth) hw
    refine ⟨rfl, fun asked' depth' wishes hwishes => hspare.never (minds_course hcrew asked' depth' hwishes ?_)⟩
    have hminds := (minds_tended hcrew asked (depth + 1)).minds (.call (.type c) args keywords) m hm
    rw [hw] at hminds
    exact hminds.tidy

/-- A method of an instance is called for the instance. -/
theorem callMethod_instance {p j : Nat} {name : String} (h : m.store.OffersTo p name j) (hname : name ≠ "default")
    (args : List Value) : callMethod (.processor p) name args (crew.tended asked (depth + 1)) m =
      inbornMethod j name (.processor p) args (crew.tended asked depth) m := by
  have hforeign : Request.isForeign m (.invoke (.inborn j name (.processor p)) args) = false := by
    simp [Request.isForeign, h.offers.2, Store.familyOf?, Store.instance?, h.family]
  rw [callMethod_processor h, tended_succ hforeign (by rw [asksFor?_of_ne hname]; rfl)]
  rfl

/-- A function registers itself with a class that it is given. -/
def registerWith (i : Nat) : List Value → Work Value
  | .type c :: _ => do
    let _ ← callMethod (.type c) "use" [.function i]
    return .null
  | _ => fail .tooDeep

/-- Users whose functions do so. -/
def registrar : Crew
  | .call (.function i) args _ => registerWith i args
  | r => (fail .tooDeep : Work r.Reply)

theorem heedful_registrar : registrar.Heedful where
  heeds asked r := by
    have hregister (i : Nat) (args : List Value) : (registerWith i args).Heeds (.defaults asked) := by
      unfold registerWith
      split
      · exact heeds_bind (heeds_callMethod _ _ _) fun _ => heeds_pure _
      · exact heeds_fail _
    cases r with
    | call callee args keywords =>
      cases callee with
      | function i => exact hregister i args
      | _ => exact heeds_fail _
    | _ => exact heeds_fail _
  tells asked i args keywords := by
    change (registerWith i args).Tells _ _
    unfold registerWith
    split
    · exact tells_bind fun _ => tells_pure nofun
    · exact tells_fail _

/-- Two classes of workers, a family, and a class below it. Somebody takes an instance of the family, has a function
register itself with the class, and asks the family for its default. -/
def registering : List Wish :=
  [.define "P" (.str "__main__") .null [] [], .define "K" (.str "__main__") .null [] [],
    .family (.str "n") (.type 1) (.type 2) .null, .define "G" (.str "__main__") .null [3] [],
    .ask (.call (.type 3) [] []), .ask (.call (.function 0) [.type 4] []),
    .ask (.invoke (.inborn 0 "default" (.type 3)) [])]

/-- Nobody has a default at first. -/
theorem tidy_initial (inLoop : Bool) : (Machine.initial inLoop).store.Tidy := by
  have hattrs (c : Nat) : ∀ name ∈ ["__new__", "_default"],
      ((Machine.initial inLoop).store.type c).attrs.get? name = none := by
    intro name hname
    cases c with
    | zero =>
      simp only [List.mem_cons, List.not_mem_nil, or_false] at hname
      rcases hname with rfl | rfl <;> rfl
    | succ c => rfl
  have hnoted (c : Nat) : (Machine.initial inLoop).store.noted c = .null := by
    rw [Store.noted, hattrs c _ (by simp)]
    rfl
  exact ⟨rfl, fun c => hattrs c _ (by simp), fun h => absurd (hnoted _) h, fun h => absurd (hnoted _) h⟩

/-- A class without attributes. -/
def plainClass (name : String) : Op := .type name name (.str "__main__") [] [] .null

/-- A function whose calls are not recorded. -/
def quietFunction (name : String) (parameters : List String) (body : List Act) : Expr :=
  .function (.mk name (.ofTokens parameters) .plain false true none none body)

/-- A script that changes the data of an instance of a class below a family. The class has its own way to prepare its
instances. -/
def resetting : List Op :=
  [plainClass "P", plainClass "K", .family "F" (.str "n") (.ref "P") (.ref "K") .null,
    .subfamily "G" "F" "G" [("__init__", quietFunction "__init__" ["self", "processor="]
      [.assign "self" [.scalar (.str "data")] (.str "fresh")])],
    .new (some "g") "G" [], .set "g" [.scalar (.str "data")] (.str "kept")]

/-- A script that has a step registered with a family, whose data have one registered with it when they are copied. -/
def doubling : List Op :=
  [plainClass "P", plainClass "K", .type "D" "D" (.str "__main__") [] [("__deepcopy__", quietFunction "copy" ["self", "memo"]
      [.assign "F" [.scalar (.str "data")] .null, .use "F" (quietFunction "t" [] []) [], .give (.int 5)])] .null,
    .new (some "d") "D" [], .family "F" (.str "n") (.ref "P") (.ref "K") (.ref "d"),
    .use "F" (quietFunction "u" [] []) [] 1]

end Crew
end Treeworks
