import Treeworks.Proofs.Default.History
import Treeworks.Proofs.Own.Course
import Treeworks.Proofs.Own.Documents
import Treeworks.Proofs.Own.Founding

/-! Families are built, and then instances of them are made, used and changed in any order. What is done through one of them
leaves the others as they are, and the families, their classes and their data. An instance that is made later is as the
families were before anything was done. -/
namespace Treeworks

namespace Store
variable (made : Value → List Value) (K S : Set Nat) (s s' : Store)

/-- Whether no instance has anything of its own that another has or that belongs to some classes. -/
def Separates : Prop :=
  ∀ p ∈ S, ∀ v, s.Own made p v → ¬ s.Common made K v ∧ ∀ q ∈ S, s.Own made q v → q = p

/-- Whether an instance has the same things of its own as before, and each of them is the same. -/
def Untouched (p : Nat) : Prop := ∀ v, (s'.Own made p v ↔ s.Own made p v) ∧ (s.Own made p v → s.SameAs s' v)

/-- Whether some classes last, the same things belong to them as before, and each of these is the same. -/
structure Spares : Prop where
  lasts : ∀ c ∈ K, s.Lasts s' c
  common : ∀ v, s'.Common made K v ↔ s.Common made K v
  same : ∀ v, s.Common made K v → s.SameAs s' v

end Store

theorem Isolated.separates {made : Value → List Value} {F K S : Set Nat} {m : Machine} (h : Isolated made F K S m) :
    m.store.Separates made K S :=
  fun _ hp _ hv => ⟨h.off hp hv, fun _ hq hv' => h.apart hq hp hv' hv⟩

namespace LeavesOthers
variable {made : Value → List Value} {F K P S T : Set Nat} {m m' : Machine} (h : LeavesOthers made F K P S m T m')
include h

theorem untouched {q : Nat} (hq : q ∈ S) (hother : q ∉ P) : m.store.Untouched made m'.store q := by
  have hsame (v : Value) (hv : m.store.Own made q v) : m.store.SameAs m'.store v := h.same v (.inr ⟨q, ⟨hq, hother⟩, hv⟩)
  exact fun v => ⟨Store.own_congr hsame, hsame v⟩

theorem spares (hm : Isolated made F K S m) : m.store.Spares made K m'.store where
  lasts := h.lasts
  common _ := Store.common_congr hm.closed h.lasts fun v hv => h.same v (.inl hv)
  same v hv := h.same v (.inl hv)

end LeavesOthers

section
variable {made : Value → List Value} {F K S : Set Nat} {m₀ m : Machine} {c : Nat}

/-- The data of a family are still the document that they were if its classes have been spared. -/
theorem Store.Spares.document (h : m₀.store.Spares made K m.store) (hm₀ : Isolated made F K ∅ m₀) (hm : Isolated made F K S m)
    (hc : c ∈ F) (hdocument : ∀ d, m₀.store.typeAttr? c "data" = some d → m₀.store.IsDocument made d) (d : Value)
    (hd : m.store.typeAttr? c "data" = some d) : m.store.IsDocument made d := by
  have hcK := hm₀.families hc
  rw [typeAttr?_of_lasts hm₀.closed h.lasts hcK (by decide)] at hd
  have hcommon (v : Value) (hv : m₀.store.Within made d v) (hmutable : v.isMutable = true) : m₀.store.Common made K v :=
    .data hcK (hm₀.regular c hc).family hd hv hmutable
  refine (hdocument d hd).of_same (fun v hv hmutable => ?_) fun v hv hmutable => h.same v (hcommon v hv hmutable)
  exact hm.ground v ((h.common v).mpr (hcommon v hv hmutable))

end

/-- The machine after a class has been defined, if one can be. -/
def Machine.defining (m : Machine) (name : String) (bases : List Nat) (attrs : Table Value) : Machine :=
  match m.store.newType name (.str "__main__") .null bases attrs .plain with
  | .ok (_, s) => { m with store := s }
  | .error _ => m

theorem Founded.defining {made : Value → List Value} {F K : Set Nat} {m : Machine} (h : Founded made F K m) (name : String)
    {bases : List Nat} {attrs : Table Value} (c : Nat) (hbelow : ∀ i ∈ bases, i ∈ K) (hthere : m.store.HoldsAll attrs)
    (hsize : (m.defining name bases attrs).store.types.size = m.store.types.size + 1) (hc : m.store.types.size = c)
    (hplain : (m.defining name bases attrs).store.descends c 0 = false) :
    Founded made F (insert c K) (m.defining name bases attrs) := by
  unfold Machine.defining at hsize hplain ⊢
  split at hsize
  · rename_i hnew
    rw [hnew] at hplain
    cases (Store.defines_of_newType hnew).new.trans hc
    exact .define h hbelow hthere hnew hplain
  · exact absurd hsize (Nat.succ_ne_self _).symm

theorem Outcome.eq_of_value? {α : Type} {r : Outcome α × Machine} {v : α} (h : r.1.value? = some v) : r = (.done v, r.2) := by
  obtain ⟨_ | _ | _, m⟩ := r <;> cases h
  rfl

namespace Workshop
open Work

/-- A table of rules and a list of data have been made. -/
def supplied : Machine :=
  let s := ((Store.initial.addDict [(.str "*", .str "item")]).2.addList [.int 1]).2
  { Machine.initial false with store := (s.addFunction (.script "f" (.ofTokens ["tree"]) .plain false true [])).2 }

/-- There are a class with a table of rules, a parser class below it, and a compiler class. -/
def classes : Machine := ((supplied.defining "Rules" [] [("rules", .dict 1)]).defining "P" [1] []).defining "K" [] []

/-- A family of the two has been built. -/
def built : Machine := (newFamily (.str "n") (.type 2) (.type 3) (.list 1) Service.idle classes).2

def first : Machine := (instantiate 4 [] [] Service.idle built).2

def second : Machine := (instantiate 4 [] [] Service.idle first).2

/-- The rules of the first instance have changed. -/
def ruled : Machine := { second with store := second.store.updateDict 3 fun _ => [(.str "*", .str "other")] }

/-- The first instance has been called to use a callable. -/
def used : Machine := (service 5 (.invoke (.inborn 0 "use" (.processor 0)) [.function 0]) ruled).2

theorem within_data {m : Machine} (h : m.store.list 1 = [.int 1]) {v : Value}
    (hv : m.store.Within (fun _ => []) (.list 1) v) : v ∈ [Value.list 1, .int 1] := by
  refine Store.mem_of_within (by decide) (fun a ha b hb => ?_) hv
  simp only [List.mem_cons, List.not_mem_nil, or_false] at ha
  obtain rfl | rfl := ha
  · have hitems : b ∈ m.store.list 1 := by simpa [Store.inside] using hb
    rw [h] at hitems
    exact .tail _ hitems
  · cases hb

theorem founded_classes : Founded (fun _ => []) {0} {3, 2, 1, 0} classes := by
  have hsupplied : Founded (fun _ => []) {0} {0} supplied :=
    .elsewhere (.initial false rfl) (fun _ => False)
      ((Machine.Retains.of_made (.addDict _ _) rfl rfl).trans
        ((Machine.Retains.of_made (.addList _ _) rfl rfl).trans (Machine.Retains.of_made (.addFunction _ _) rfl rfl)))
      (fun _ => False.elim) fun _ _ => False.elim
  have hrules : supplied.store.HoldsAll [("rules", .dict 1)] := by
    intro e he
    cases List.mem_singleton.mp he
    exact show 1 < supplied.store.dicts.size by decide
  have hfirst : Founded (fun _ => []) {0} {1, 0} (supplied.defining "Rules" [] [("rules", .dict 1)]) :=
    hsupplied.defining "Rules" 1 nofun hrules (by decide +kernel) rfl (by decide +kernel)
  have hsecond : Founded (fun _ => []) {0} {2, 1, 0} ((supplied.defining "Rules" [] [("rules", .dict 1)]).defining "P" [1] []) :=
    hfirst.defining "P" 2 (by simp) nofun (by decide +kernel) (by decide +kernel) (by decide +kernel)
  exact hsecond.defining "K" 3 nofun nofun (by decide +kernel) (by decide +kernel) (by decide +kernel)

theorem founded_built : Founded (fun _ => []) {4, 0} {4, 3, 2, 1, 0} built := by
  have hordinary (i : Nat) (hi : i ∈ [2, 3]) : classes.store.Ordinary i := by
    have hall : ∀ i ∈ [2, 3], (classes.store.type i).doc.isAsked = false ∧
        ∀ j ∈ (classes.store.type i).ancestry, (classes.store.type j).attrs.get? "__init_subclass__" = none := by
      decide +kernel
    exact ⟨(hall i hi).1, (hall i hi).2⟩
  have hthere (v : Value) (hv : classes.store.Within (fun _ => []) (.list 1) v) (hmutable : v.isMutable = true) :
      classes.store.Stands v := by
    have hin := within_data (by decide +kernel) hv
    simp only [List.mem_cons, List.not_mem_nil, or_false] at hin
    obtain rfl | rfl := hin
    · exact show 1 < classes.store.lists.size by decide +kernel
    · cases hmutable
  have hplain (x : Instance) (hx : classes.store.instance? (.list 1) = some x) : False := by cases hx
  have hmute : classes.store.Mute (.list 1) := by
    refine ⟨fun _ _ hslot => ?_, fun x hx => (hplain x hx).elim, fun x hx => (hplain x hx).elim⟩
    cases hslot
  have hrun : newFamily (.str "n") (.type 2) (.type 3) (.list 1) Service.idle classes = (.done 4, built) :=
    Outcome.eq_of_value? (by decide +kernel)
  obtain ⟨c, m', heq, hfounded⟩ | ⟨out, m', heq, hout, -⟩ := founded_classes.of_newFamily (t := "n")
    ⟨by simp, hordinary 2 (by decide)⟩ ⟨by simp, hordinary 3 (by decide)⟩ hmute
    (fun x hx => (hplain x hx).elim) hthere (by decide) Service.idle
  · cases hrun.symm.trans heq
    exact hfounded
  · cases hrun.symm.trans heq
    exact absurd rfl (hout _)

/-- What can become of the instances of the family by what is done through the first. -/
abbrev Goes : Set Nat → Machine → Set Nat → Machine → Prop := Course (fun _ => []) {4, 0} {4, 3, 2, 1, 0} {0}

theorem document {m : Machine} (hlist : m.store.list 1 = [.int 1]) (hdata : m.store.typeAttr? 4 "data" = some (.list 1))
    (hsize : 1 < m.store.lists.size) (d : Value) (hd : m.store.typeAttr? 4 "data" = some d) :
    m.store.IsDocument (fun _ => []) d := by
  cases hdata.symm.trans hd
  intro v hv
  have hin := within_data hlist hv
  simp only [List.mem_cons, List.not_mem_nil, or_false] at hin
  obtain rfl | rfl := hin
  · exact .list hsize
  · exact .atom rfl rfl

theorem goes_made {S : Set Nat} {m : Machine} {p : Nat} (hm : Isolated (fun _ => []) {4, 0} {4, 3, 2, 1, 0} S m)
    (hlist : m.store.list 1 = [.int 1]) (hdata : m.store.typeAttr? 4 "data" = some (.list 1))
    (hsize : 1 < m.store.lists.size) (hrun : (instantiate 4 [] [] Service.idle m).1.value? = some (.processor p)) :
    Goes S m (insert p S) (instantiate 4 [] [] Service.idle m).2 :=
  .construct (.inl rfl) .nothing rfl trivial
    (Work.detaches_of_isDocument hm (.inl rfl) (document hlist hdata hsize) Service.idle) (Outcome.eq_of_value? hrun)

theorem goes_second : Goes ∅ built {1, 0} second := by
  have hfirst : Goes ∅ built {0} first := by
    have hrun := goes_made (p := 0) founded_built.isolated (by decide +kernel) (by decide +kernel) (by decide +kernel)
      (by decide +kernel)
    rwa [insert_empty_eq] at hrun
  exact hfirst.seq (goes_made (hfirst.leaves founded_built.isolated).isolated (by decide +kernel) (by decide +kernel)
    (by decide +kernel) (by decide +kernel))

theorem goes_used : Goes {1, 0} second {1, 0} used := by
  have hoffers : second.store.typeAttr? 5 "rules" = some (.dict 3) := by decide +kernel
  have hpart : second.store.IsPart 0 5 := .inl (by decide +kernel)
  have hruled : Goes {1, 0} second {1, 0} ruled :=
    .table (by simp) rfl hpart (by decide +kernel) hoffers rfl (.dict 3 _) nofun
  have hrole : (ruled.store.type 0).role = .family := by
    have hlasts := ((goes_second.seq hruled).leaves founded_built.isolated).lasts 0 (by simp)
    rw [hlasts.role, founded_built.base.2.2]
    rfl
  exact hruled.seq (.of_use_function (w := 1) (t := "f") hrole (by simp) (by decide +kernel) rfl (by decide +kernel)
    (by decide +kernel))

end Workshop

namespace Sharing
open Crew (plainClass quietFunction)

/-- A family of two classes, one of which has attributes, with data. -/
def family (attrs : List (String × Expr)) (data : Expr) : List Op :=
  [.type "P" "P" (.str "__main__") [] attrs .null, plainClass "K", .family "F" (.str "n") (.ref "P") (.ref "K") data]

/-- Two instances of a class. -/
def pair (of : String) : List Op := [.new (some "p") of [], .new (some "q") of []]

def path (names : List String) : Path := names.map fun name => .scalar (.str name)

/-- Scripts that make two instances, each with a path to something that both have. -/
def scripts : List (List Op × Path) :=
  [ -- A table under a reserved name is not copied.
    (family [("__table__", .dict [("*", .int 1)])] .null ++ pair "F", path ["Parser", "__table__", "*"]),
    -- One table is given to the classes of both.
    (family [] .null ++ pair "F" ++ [.val "s" (.dict [("*", .int 1)]), .set "p" (path ["Parser", "extras"]) (.ref "s"),
      .set "q" (path ["Parser", "extras"]) (.ref "s")], path ["Parser", "extras", "*"]),
    -- Classes are not copied with the data that they are within.
    (.type "D" "D" (.str "__main__") [] [("level", .int 1)] .null :: family [] (.dict [("*", .ref "D")]) ++ pair "F",
      path ["data", "*", "level"]),
    -- The class of the data says how they are copied.
    ([.type "D" "D" (.str "__main__") [] [("level", .int 1), ("__deepcopy__", quietFunction "copy" ["self", "memo"]
      [.give (.ref "self")])] .null, .new (some "d") "D" []] ++ family [] (.ref "d") ++ pair "F", path ["data", "level"]),
    -- A class below the family says how its instances are prepared, or how their attributes are read.
    (family [("rules", .dict [("*", .int 1)])] .null ++ [.subfamily "G" "F" "G" [("__init__",
      quietFunction "__init__" ["self", "processor="] [.assign "self" (path ["Parser"]) (.ref "P")])]] ++ pair "G",
      path ["Parser", "rules", "*"]),
    (.val "s" (.dict [("*", .int 1)]) :: family [] .null ++ [.subfamily "G" "F" "G" [("__getattribute__",
      quietFunction "read" ["self", "name"] [.give (.ref "s")])]] ++ pair "G", path ["data", "*"]),
    -- A class says what becomes of those that are derived from it.
    (.val "s" (.dict [("*", .int 1)]) :: family [("__init_subclass__", quietFunction "derived" ["cls"]
      [.assign "cls" (path ["rules"]) (.ref "s")])] .null ++ pair "F", path ["Parser", "rules", "*"])]

/-- The numbers that a script reads through the second of two instances, before and after it stores one through the
first. -/
def readings (before : List Op) (place : Path) : Option (List (Option Int)) :=
  let ops := before ++ [.get "q" place, .set "p" place (.int 2), .get "q" place]
  (Work.performScript false false ops (Treeworks.service 7) (.initial false)).1.value?.map fun results =>
    (results.drop before.length).map fun
      | [("ok", .int n)] => some n
      | _ => none

end Sharing
end Treeworks
