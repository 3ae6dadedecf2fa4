import Treeworks.Proofs.Default.Noted
import Treeworks.Proofs.Heed.Service
import Treeworks.Proofs.Slot.Building

/-! Calls of families, and of what they are born with. A family that is called gives what it was called with, if that is
one of its instances, or else a new instance; its default is made once, by such a call. -/
namespace Treeworks

/-- The ways in which a family can be called for a value: with nothing, with it, or with it by keyword. -/
inductive Passes : Value → List Value → Table Value → Prop
  | nothing : Passes .null [] []
  | direct (v : Value) : Passes v [v] []
  | named (v : Value) : Passes v [] [("processor", v)]

namespace Store
variable {s : Store}

theorem isInstance_type (s : Store) (i c : Nat) : Work.isInstance s (.type i) c = false := rfl

/-- Families make instances as the class does that all of them come from. -/
theorem Tidy.member?_new (hs : s.Tidy) {c : Nat} (hc : s.descends c 0 = true) :
    ∃ j, s.member? c "__new__" = some (.inborn j) := by
  have hsome : (s.member? c "__new__").isSome := by
    rw [member?, List.findSome?_isSome_iff]
    refine ⟨0, List.contains_iff_mem.mp hc, ?_⟩
    rw [hs.inborn, hs.root]
    rfl
  obtain ⟨x, hx⟩ := Option.isSome_iff_exists.mp hsome
  obtain ⟨j, -, hj⟩ := List.exists_of_findSome?_eq_some hx
  rw [hs.inborn] at hj
  dsimp only at hj
  split at hj
  · cases hj
    exact ⟨j, hx⟩
  · cases hj

/-- Whether a class offers a method that families are born with, and nothing else in its place. -/
def Offers (s : Store) (c : Nat) (method : String) (j : Nat) : Prop :=
  s.member? c method = some (.inborn j) ∧ (s.type j).role = .family

/-- Whether an instance of a family has such a method from its class, and nothing else in its place. -/
structure OffersTo (s : Store) (p : Nat) (method : String) (j : Nat) : Prop where
  family : s.descends (s.processor p).type 0 = true
  offers : s.Offers (s.processor p).type method j
  free : s.field? (s.processor p) method = none
  direct : s.typeAttr? (s.processor p).type "__getattribute__" = none

end Store

namespace Work
variable {asked : Nat → Bool} {m : Machine} {c : Nat} {v : Value} {args : List Value} {keywords : Table Value}

/-! ### Making instances -/

theorem boundArguments_new (h : Passes v args keywords) (callee : String) (first : Value) (name : String)
    (hname : name = "cls" ∨ name = "self") :
    boundArguments callee (.ofTokens [name, "processor="]) (first :: args) keywords = pure [first, v] := by
  rcases hname with rfl | rfl <;> cases h <;> rfl

/-- A family makes nothing of one of its instances, and a new instance of anything else. -/
theorem allocate_eq (hm : m.store.Tidy) (hc : m.store.descends c 0 = true) (h : Passes v args keywords) (σ : Service) :
    allocate c args keywords σ m = if isInstance m.store v c then (.done v, m) else newInstance c σ m := by
  obtain ⟨j, hj⟩ := hm.member?_new hc
  have hbound := boundArguments_new h "Processor.__new__" (.type c) "cls" (.inl rfl)
  unfold allocate
  rw [bind_eq]
  dsimp only [store]
  rw [hj, hbound]
  change (if isInstance m.store v c then pure v else newInstance c : Work Value) σ m = _
  split <;> rfl

/-- What is made is no class. -/
theorem tells_allocate (type : Nat) (args : List Value) (keywords : Table Value) :
    (allocate type args keywords).Tells (.defaults asked) fun v => ∀ i, v ≠ .type i := by
  have hnew : (newInstance type).Tells (.defaults asked) fun v => ∀ i, v ≠ .type i := by
    rintro _ _ m _ ⟨⟩
    exact m.store.addInstance_ne_type type
  refine tells_bind fun s => ?_
  split
  · exact tells_call _ _ _
  · refine tells_bind fun given => ?_
    dsimp only
    split
    · rename_i h
      refine tells_pure fun i hi => ?_
      rw [hi, s.isInstance_type] at h
      cases h
    · exact hnew
  · split
    · exact hnew
    · exact tells_fail _

theorem tells_instantiate (type : Nat) (args : List Value) (keywords : Table Value) :
    (instantiate type args keywords).Tells (.defaults asked) fun v => ∀ i, v ≠ .type i := by
  refine tells_bind_of (tells_allocate type args keywords) fun v hv => tells_bind fun made => ?_
  dsimp only
  split
  · exact tells_bind fun _ => tells_pure hv
  · exact tells_pure hv

/-- What families do with an instance that they have made. -/
def prepareNew (c p : Nat) (args : List Value) (keywords : Table Value) : Work Value := do
  if ← query (isMadeBy · (.processor p) c) then prepare (.processor p) args keywords
  return .processor p

/-- The machine after an instance of a family has been made. -/
def withInstance (m : Machine) (c : Nat) : Machine := { m with store := (m.store.addProcessor c).2 }

/-- A family makes a new instance of itself of anything but one of its instances, and prepares it. -/
theorem instantiate_of_not_isInstance (hm : m.store.Tidy) (hc : m.store.descends c 0 = true) (h : Passes v args keywords)
    (hv : isInstance m.store v c = false) (σ : Service) :
    instantiate c args keywords σ m = prepareNew c m.store.processors.size args keywords σ (withInstance m c) := by
  have hmade : allocate c args keywords σ m = (.done (.processor m.store.processors.size), withInstance m c) := by
    rw [allocate_eq hm hc h, if_neg (by rw [hv]; exact Bool.false_ne_true)]
    change (Outcome.done (m.store.addInstance c).1, { m with store := (m.store.addInstance c).2 }) = _
    rw [Store.addInstance, if_pos hc]
    rfl
  rw [instantiate, bind_eq, hmade]
  rfl

/-- What a family makes of anything but one of its instances is new, and no class has noted it, whatever is done to
prepare it. -/
theorem spare_of_instantiate (hm : m.store.Tidy) (hc : m.store.descends c 0 = true) (h : Passes v args keywords)
    (hv : isInstance m.store v c = false) {σ : Service} (hσ : σ.Minds asked) {w : Value} {m' : Machine}
    (hw : instantiate c args keywords σ m = (.done w, m')) :
    w = .processor m.store.processors.size ∧ m.store.Spare m'.store m.store.processors.size := by
  let p := m.store.processors.size
  have hsize : (withInstance m c).store.processors.size = p + 1 := Array.size_push _
  have hfirst : m.store.Minds asked (withInstance m c).store := hm.minds_of_types rfl (by omega)
  have hheeds : (prepareNew c p args keywords).Heeds (.defaults asked) := by
    unfold prepareNew
    grind
  have htells : (prepareNew c p args keywords).Tells (.defaults asked) (· = .processor p) := by
    refine tells_bind fun made => ?_
    dsimp only
    split
    · exact tells_bind fun _ => tells_pure rfl
    · exact tells_pure rfl
  rw [instantiate_of_not_isInstance hm hc h hv] at hw
  have hthen := hheeds.holds hσ (withInstance m c) hfirst.tidy
  rw [hw] at hthen
  refine ⟨htells σ hσ (withInstance m c) w (by rw [hw]), Nat.le_refl _, Nat.lt_of_lt_of_le (by omega) hthen.size,
    fun d hd => ?_⟩
  -- What is noted now was noted before there was the instance, or came after it.
  by_cases hnoted : (withInstance m c).store.noted d = .null
  · obtain ⟨-, q, hq, hdq⟩ := hthen.fresh hnoted (by rw [hd]; exact nofun)
    cases hd.symm.trans hdq
    omega
  · rw [hthen.kept hnoted] at hd
    obtain ⟨q, hq, hdq⟩ := hm.instances (c := d) hnoted
    cases hd.symm.trans hdq
    exact Nat.lt_irrefl _ hq

/-- An instance that was given to its family is left as it is by what families prepare theirs with. -/
theorem prepare_self (h : Passes v args keywords) {x : Instance} (hx : m.store.instance? v = some x)
    {j : Nat}
    (hinit : m.store.Offers x.type "__init__" j) (σ : Service) : prepare v args keywords σ m = (.done (), m) := by
  obtain ⟨hj, hrole⟩ := hinit
  have hfamily : familyOf v σ m = (.done x.type, m) := by
    cases v with
    | processor p | worker w =>
      cases hx
      rfl
    | _ => cases hx
  have hbound := boundArguments_new h "Processor.__init__" v "self" (.inr rfl)
  unfold prepare
  change (familyOf v >>= _) σ m = _
  rw [bind_eq, hfamily]
  dsimp only
  rw [hj]
  dsimp only
  rw [hrole]
  dsimp only
  rw [prepareProcessor, hbound]
  change (if v = v then pure () else _ : Work Unit) σ m = _
  rw [if_pos rfl]
  rfl

/-- A family that is called with one of its instances gives it, and does not touch it, if it is prepared as families
prepare theirs. -/
theorem instantiate_of_isInstance (hm : m.store.Tidy) (hc : m.store.descends c 0 = true) (h : Passes v args keywords)
    (hv : isInstance m.store v c = true)
    (hinit : ∀ x, m.store.instance? v = some x → ∃ j, m.store.Offers x.type "__init__" j) (σ : Service) :
    instantiate c args keywords σ m = (.done v, m) := by
  rw [instantiate, bind_eq, allocate_eq hm hc h, if_pos hv]
  change (if isMadeBy m.store v c then (do prepare v args keywords; return v) else return v : Work Value) σ m = _
  split
  · rename_i hmade
    rw [isMadeBy, Option.any_eq_true] at hmade
    obtain ⟨x, hx, -⟩ := hmade
    obtain ⟨j, hj⟩ := hinit x hx
    rw [bind_eq, prepare_self h hx hj]
    rfl
  · rfl

/-! ### Defaults -/

theorem defaultProcessor_known (h : m.store.noted c ≠ .null) (σ : Service) :
    defaultProcessor c σ m = (.done (m.store.noted c), m) := by
  change (if m.store.noted c ≠ .null then pure (m.store.noted c) else _ : Work Value) σ m = _
  rw [if_pos h]
  rfl

/-- Calls a class without arguments. -/
def callClass (c : Nat) : Work Value := serve (.call (.type c) [] [])

theorem setDefault_eq (c : Nat) (v : Value) (σ : Service) (m : Machine) :
    setAttribute (.type c) "_default" v σ m = (.done (), { m with store := m.store.note c v }) := rfl

/-- A class that has noted nothing notes what it gives when it is called. -/
theorem defaultProcessor_new (h : m.store.noted c = .null) (σ : Service) :
    defaultProcessor c σ m =
      match callClass c σ m with
      | (.done v, m') => (.done v, { m' with store := m'.store.note c v })
      | (.raised e, m') => (.raised e, m')
      | (.spent, m') => (.spent, m') := by
  change (if m.store.noted c ≠ .null then pure (m.store.noted c) else do
    let v ← callClass c
    setAttribute (.type c) "_default" v
    return v : Work Value) σ m = _
  rw [if_neg fun hne => hne h, bind_eq]
  rcases callClass c σ m with ⟨v | e | _, m'⟩
  · dsimp only
    rw [bind_eq, setDefault_eq]
    rfl
  · rfl
  · rfl

/-- A class that is asked for its default and gives one has noted it. -/
theorem noted_of_defaultProcessor {σ : Service} (hσ : σ.Minds asked) (hm : m.store.Tidy)
    (hc : m.store.descends c 0 = true) {m' : Machine} (h : defaultProcessor c σ m = (.done v, m')) :
    m'.store.noted c = v ∧ ∃ p, v = .processor p := by
  by_cases hnoted : m.store.noted c = .null
  · rw [defaultProcessor_new hnoted] at h
    rcases hmade : callClass c σ m with ⟨w | e | _, m₁⟩ <;> rw [hmade] at h
    · cases h
      obtain ⟨p, rfl, hp⟩ := hσ.makes hm hc hmade
      have hfirst : m.store.Minds asked m₁.store := by
        have hminds := hσ.minds (.call (.type c) [] []) m hm
        rwa [show (σ (.call (.type c) [] []) m).2 = m₁ from congrArg Prod.snd hmade] at hminds
      refine ⟨?_, p, rfl⟩
      rw [Store.noted_note (Nat.lt_of_lt_of_le (Store.lt_of_descends hc) hfirst.types), if_pos rfl]
    · cases h
    · cases h
  · rw [defaultProcessor_known hnoted] at h
    cases h
    obtain ⟨p, -, hp⟩ := hm.instances hnoted
    exact ⟨rfl, p, hp⟩

/-- To ask a family for its default minds defaults. -/
theorem minds_defaultProcessor {σ : Service} (hσ : σ.Minds asked) (hm : m.store.Tidy)
    (hc : m.store.descends c 0 = true) (hasked : asked c = true) :
    m.store.Minds asked (defaultProcessor c σ m).2.store := by
  by_cases hnoted : m.store.noted c = .null
  · have hminds : m.store.Minds asked (callClass c σ m).2.store := hσ.minds (.call (.type c) [] []) m hm
    rw [defaultProcessor_new hnoted]
    rcases hmade : callClass c σ m with ⟨w | e | _, m₁⟩ <;> rw [hmade] at hminds
    · obtain ⟨p, rfl, hp⟩ := hσ.makes hm hc hmade
      exact hminds.note (Store.lt_of_descends hc) hnoted hasked hp
    · exact hminds
    · exact hminds
  · rw [defaultProcessor_known hnoted]
    exact hm.minds_of_settled (.refl _)

/-! ### Methods -/

theorem ensureProcessor_eq (c : Nat) (v : Value) (σ : Service) (m : Machine) :
    ensureProcessor c v σ m =
      if isInstance m.store v c then (.done v, m) else callMethod (.type c) "default" [] σ m := by
  change (if isInstance m.store v c then return v else callMethod (.type c) "default" [] : Work Value) σ m = _
  split <;> rfl

/-- A method that a class offers is called for the class. -/
theorem callMethod_type {name : String} {j : Nat} (h : m.store.Offers c name j) (args : List Value) (σ : Service) :
    callMethod (.type c) name args σ m = σ (.invoke (.inborn j name (.type c)) args) m := by
  have hattr : m.store.typeAttr? c name = none := by rw [Store.typeAttr?, h.1]
  have hmethod : m.store.method (.type c) name = .ok (.inborn j name (.type c)) := by
    rw [Store.method]
    simp only [h.1]
  have hspecial : (special? (.type c) "__getattribute__").Gives m none m := fun _ => rfl
  have haccessor : (accessor? (.type c) name "__get__").Gives m none m := by
    refine (gives_store m).bind fun σ => ?_
    dsimp only
    rw [hattr]
    rfl
  rw [callMethod, hspecial.bind_eq, haccessor.bind_eq, (gives_query _ m).bind_eq, hmethod]
  rfl

/-- A method that an instance has from its class is called for the instance. -/
theorem callMethod_processor {p : Nat} {name : String} {j : Nat} (h : m.store.OffersTo p name j) (args : List Value)
    (σ : Service) : callMethod (.processor p) name args σ m = σ (.invoke (.inborn j name (.processor p)) args) m := by
  have hoffered : m.store.typeAttr? (m.store.processor p).type name = none := by rw [Store.typeAttr?, h.offers.1]
  have hmethod : m.store.method (.processor p) name = .ok (.inborn j name (.processor p)) := by
    rw [Store.method, Store.instanceMethod]
    simp only [h.offers.1, h.free]
  have haccessor : (accessor? (.processor p) name "__get__").Gives m none m := by
    refine (gives_store m).bind fun σ => ?_
    dsimp only [Store.instance?, Option.bind_some]
    rw [hoffered]
    rfl
  rw [callMethod, (gives_special_processor h.direct).bind_eq, haccessor.bind_eq, (gives_query _ m).bind_eq, hmethod]
  rfl

/-- What is called by the name of a method that families are born with. -/
theorem inbornMethod_of_family {j : Nat} (hj : (m.store.type j).role = .family) (method : String) (receiver : Value)
    (args : List Value) (σ : Service) :
    inbornMethod j method receiver args σ m =
      (if method = "__repr__" then (do return .str (← written receiver)) else familyMethod method receiver args) σ m := by
  rw [inbornMethod, (gives_query _ m).bind_eq, hj]

theorem familyMethod_default (receiver : Value) :
    familyMethod "default" receiver [] = familyOf receiver >>= defaultProcessor := rfl

theorem familyMethod_ensure {args : List Value} (h : args.length ≤ 1) (receiver : Value) :
    familyMethod "ensure" receiver args = familyOf receiver >>= fun c => ensureProcessor c (args.getD 0 .null) := by
  unfold familyMethod
  rw [if_neg (by decide), if_pos rfl, if_pos h]

theorem familyMethod_of_ne {method : String} (hdefault : method ≠ "default") (hensure : method ≠ "ensure")
    (receiver : Value) (args : List Value) :
    familyMethod method receiver args = (do
      let p ← match receiver with
        | .type _ => callMethod receiver "default" []
        | v => pure v
      processorMethod method p args : Work Value) := by
  unfold familyMethod
  cases receiver <;> exact (if_neg hdefault).trans (if_neg hensure)

/-- What families do for their other methods heeds every frame. -/
theorem heeds_familyMethod_of_ne {F : Frame} [F.Runs] {method : String} (h : method ≠ "default") (receiver : Value)
    (args : List Value) : (familyMethod method receiver args).Heeds F := by
  unfold familyMethod
  rw [if_neg h]
  grind

/-- A method of a family that is called for a class that offers defaults is called for the class's default. -/
theorem inbornMethod_type {σ : Service} (hσ : σ.Minds asked) (hm : m.store.Tidy) (hc : m.store.descends c 0 = true)
    {i j : Nat} (hi : m.store.Offers c "default" i) (hj : (m.store.type j).role = .family) {method : String}
    (hmethod : method ∉ ["default", "ensure", "__repr__"]) (args : List Value) :
    inbornMethod j method (.type c) args σ m =
      (callMethod (.type c) "default" [] >>= fun p => inbornMethod j method p args) σ m := by
  simp only [List.mem_cons, List.not_mem_nil, or_false, not_or] at hmethod
  obtain ⟨hdefault, hensure, htext⟩ := hmethod
  rw [inbornMethod_of_family hj, if_neg htext, familyMethod_of_ne hdefault hensure]
  dsimp only
  rw [bind_eq, bind_eq]
  rcases hcall : callMethod (.type c) "default" [] σ m with ⟨v | e | _, m'⟩
  · rw [callMethod_type hi] at hcall
    obtain ⟨-, p, rfl⟩ := hσ.notes hm hc hi.2 hcall
    have hminds := hσ.minds (.invoke (.inborn i "default" (.type c)) []) m hm
    rw [hcall] at hminds
    dsimp only
    rw [inbornMethod_of_family (hminds.roles hj), if_neg htext, familyMethod_of_ne hdefault hensure]
    rfl
  · rfl
  · rfl

/-- The method that a class offers, as a value. -/
def methodValue (c : Nat) (name : String) (j : Nat) : Function :=
  .bound ("Processor." ++ name) (.inborn j name (.type c))

/-- To look up a method that a class offers makes a value of it, and asks for nothing. -/
theorem gives_attr_type {name : String} {j : Nat} (h : m.store.Offers c name j)
    (hname : name.toList.head? ≠ some '_') :
    (attr (.type c) name).Gives m (m.store.addFunction (methodValue c name j)).1
      { m with store := (m.store.addFunction (methodValue c name j)).2 } := by
  have hne {other : String} (hother : other.toList.head? = some '_') : name ≠ other := fun h => hname (h ▸ hother)
  have hown : m.store.typeAttr? c name = none := by rw [Store.typeAttr?, h.1]
  have hattr : m.store.attr? (.type c) name = none := by
    have hclass : m.store.classAttr? c name = none := by
      rw [Store.classAttr?, if_neg (hne rfl), if_neg (hne rfl), if_neg (hne rfl), if_neg (hne rfl), if_neg (hne rfl), hown]
    rw [Store.attr?, Store.ownAttr?, hclass]
    exact if_neg (hne rfl)
  have hmethod : m.store.method (.type c) name = .ok (.inborn j name (.type c)) := by
    rw [Store.method]
    simp only [h.1]
  have hlabel : m.store.methodLabel? (.type c) name = some ("Processor." ++ name) := by
    unfold Store.methodLabel?
    rw [hmethod]
    dsimp only
    rw [h.2]
  have hspecial : (special? (.type c) "__getattribute__").Gives m none m := fun _ => rfl
  have hread : (readValue? (.type c) name).Gives m none m := by
    have haccessor : (accessor? (.type c) name "__get__").Gives m none m := by
      refine (gives_store m).bind fun σ => ?_
      dsimp only
      rw [hown]
      rfl
    exact (gives_store m).bind (haccessor.bind fun _ => rfl)
  have hmade : (madeAttribute (.type c) name).Gives m (some (m.store.addFunction (methodValue c name j)).1)
      { m with store := (m.store.addFunction (methodValue c name j)).2 } := by
    refine (gives_store m).bind fun σ => ?_
    generalize hv : Value.type c = v at *
    dsimp only
    split
    · exact absurd rfl (hne rfl)
    · exact absurd rfl (hne rfl)
    · exact absurd rfl (hne rfl)
    · cases hv
    · cases hv
    · exact absurd rfl (hne rfl)
    · rw [hmethod, hlabel]
      subst hv
      rfl
  have hfound : (found? (.type c) name).Gives m (some (m.store.addFunction (methodValue c name j)).1)
      { m with store := (m.store.addFunction (methodValue c name j)).2 } := by
    refine hread.bind ((gives_store m).bind ?_)
    rw [hattr]
    exact hmade
  refine hspecial.bind fun σ => ?_
  dsimp only
  rw [bind_eq, attempt, hfound σ]
  rfl

end Work
end Treeworks
