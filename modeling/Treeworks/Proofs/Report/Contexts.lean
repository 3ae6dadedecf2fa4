import Treeworks.Script.Description
import Treeworks.Proofs.Report.Reading
import Treeworks.Proofs.Log.Closing

/-! What is added to the context of an engine error. A name that every context has an attribute of is written in its place,
any other name into the bag. Only three of those attributes are shown, so that a name is found again if it is one of the
three or goes to the bag. -/
namespace Treeworks

/-- The attributes of a context that its mapping shows. -/
def shownNames : List String := ["processor", "stage", "file_path"]

/-- Whether every context has an attribute of a name. -/
def isContextName (name : String) : Bool := objectAttributes.contains name || contextAttributes.contains name

/-- The names that nothing can be added under without harm: the parameter that is the error itself, the method that gives
the mapping, and the attributes that no context lets go of. -/
def barredNames : List String := ["self", "to_dict", "__class__", "__dict__", "__weakref__"]

/-- The last value that was given under a name. -/
def lastGiven? (given : Table Value) (name : String) : Option Value := Table.get? given.reverse name

/-- What is told of a name after some values were given: the last one, which has to be something where the name is one of
those that are shown. -/
def told? (given : Table Value) (name : String) : Option Value :=
  if shownNames.contains name then (lastGiven? given name).filter (· ≠ .null) else lastGiven? given name

/-- What the mapping of a context has under a name, once some values were added: what is told of it, unless every context
has another attribute of that name. -/
def mapped? (given : Table Value) (name : String) : Option Value :=
  if isContextName name && !shownNames.contains name then none else told? given name

theorem lastGiven?_append (given : Table Value) (name : String) (v : Value) (other : String) :
    lastGiven? (given ++ [(name, v)]) other = if name = other then some v else lastGiven? given other := by
  unfold lastGiven?
  rw [List.reverse_append]
  rfl

theorem lastGiven?_isSome_iff (given : Table Value) (name : String) :
    (lastGiven? given name).isSome = true ↔ ∃ e ∈ given, e.1 = name := by
  have hiff (t : Table Value) : (t.get? name).isSome = true ↔ ∃ e ∈ t, e.1 = name := by
    induction t with
    | nil => simp [Table.get?]
    | cons e t ih => by_cases he : e.1 = name <;> simp [Table.get?, he, ih]
  rw [lastGiven?, hiff]
  simp

/-- All is told of what was given, unless one of the names is that of another attribute that every context has. -/
theorem mapped?_eq_told?_iff (given : Table Value) :
    (∀ name, mapped? given name = told? given name) ↔ ∀ e ∈ given, isContextName e.1 = true → e.1 ∈ shownNames := by
  constructor
  · intro h e he hcontext
    by_contra hshown
    have hnot : shownNames.contains e.1 = false := by simpa using hshown
    have hsome : (lastGiven? given e.1).isSome = true := (lastGiven?_isSome_iff given e.1).mpr ⟨e, he, rfl⟩
    have heq := h e.1
    unfold mapped? told? at heq
    rw [hcontext, hnot, if_neg Bool.false_ne_true] at heq
    rw [← heq] at hsome
    cases hsome
  · intro h name
    unfold mapped?
    split
    · rename_i hname
      obtain ⟨hcontext, hnot⟩ := Bool.and_eq_true_iff.mp hname
      have hshown : shownNames.contains name = false := by simpa using hnot
      unfold told?
      rw [hshown, if_neg Bool.false_ne_true]
      cases hlast : lastGiven? given name with
      | none => rfl
      | some v =>
        obtain ⟨e, he, rfl⟩ := (lastGiven?_isSome_iff given name).mp (hlast ▸ rfl)
        have hmem : shownNames.contains e.1 = true := List.contains_iff_mem.mpr (h e he hcontext)
        rw [hshown] at hmem
        cases hmem
    · rfl

namespace Entries

theorem named?_ofTable (t : Table Value) (name : String) : (ofTable t).named? name = t.get? name := by
  induction t with
  | nil => rfl
  | cons e t ih =>
    have hcons : ofTable (e :: t) = (.str e.1, e.2) :: ofTable t := rfl
    rw [hcons, named?_cons, ih]
    simp [Table.get?]

end Entries

namespace Table
variable {t u : Table Value}

theorem get?_merge (h : u.Distinct) (t : Table Value) (name : String) :
    (t.merge u).get? name = (u.get? name).or (t.get? name) := by
  unfold merge
  induction u generalizing t with
  | nil => rfl
  | cons e u ih =>
    obtain ⟨k, v⟩ := e
    obtain ⟨hnot, hu⟩ := List.nodup_cons.mp h
    rw [List.foldl_cons, ih hu, get?_set, get?]
    by_cases hk : k = name
    · subst hk
      have hnone : Table.get? u k = none := by
        cases hget : Table.get? u k with
        | none => rfl
        | some w => exact absurd (mem_keys_of_get? hget) hnot
      rw [hnone, if_pos rfl, if_pos rfl]
      rfl
    · rw [if_neg hk, if_neg hk]

theorem Distinct.merge (h : t.Distinct) (u : Table Value) : (t.merge u).Distinct := by
  unfold Table.merge
  induction u generalizing t with
  | nil => exact h
  | cons e u ih => exact ih (h.set e.1 e.2)

/-- Some names with what a function gives for them, where that is something. -/
def present (f : String → Value) (names : List String) : Table Value :=
  (names.map fun name => (name, f name)).filter fun e => e.2 ≠ .null

theorem keys_present (f : String → Value) (names : List String) :
    (present f names).keys = names.filter fun name => f name ≠ .null := by
  unfold present keys
  rw [List.filter_map, List.map_map]
  exact List.map_id _

theorem distinct_present (f : String → Value) {names : List String} (h : names.Nodup) : (present f names).Distinct := by
  unfold Distinct
  rw [keys_present]
  exact h.filter _

theorem get?_present (f : String → Value) (names : List String) (name : String) :
    (present f names).get? name = if name ∈ names ∧ f name ≠ .null then some (f name) else none := by
  induction names with
  | nil => rfl
  | cons k names ih =>
    have hcons : present f (k :: names) = if f k ≠ .null then (k, f k) :: present f names else present f names := by
      unfold present
      rw [List.map_cons, List.filter_cons]
      simp
    rw [hcons]
    by_cases hk : k = name
    · subst hk
      by_cases hv : f k = .null <;> simp [hv, ih, get?]
    · have hk' : ¬ name = k := fun h => hk h.symm
      by_cases hv : f k = .null <;> simp [hv, ih, get?, hk, hk']

end Table

/-- What stands in a context and in its bag, once some values were added. -/
structure Collected (bag : Value) (t u given : Table Value) : Prop where
  metadata : t.get? "metadata" = some bag
  shown : ∀ name ∈ shownNames, t.get? name = some ((lastGiven? given name).getD .null)
  unbarred : t.get? "to_dict" = none
  others : ∀ name, isContextName name = false → name ≠ "metadata" → t.get? name = none
  distinct : u.Distinct
  rest : ∀ name, u.get? name = if isContextName name then none else lastGiven? given name

namespace Collected
variable {bag : Value} {t u given : Table Value} {name : String}

theorem isContextName_of_mem_shownNames (h : name ∈ shownNames) : isContextName name = true :=
  (by decide : ∀ name ∈ shownNames, isContextName name = true) name h

/-- A name that every context has an attribute of is written in its place. -/
theorem inPlace (h : Collected bag t u given) (hname : isContextName name = true) (hbarred : name ∉ barredNames)
    (v : Value) :
    Collected bag (t.set name v) u (given ++ [(name, v)]) where
  metadata := by
    rw [Table.get?_set, if_neg, h.metadata]
    rintro rfl
    exact absurd hname (by decide)
  shown other hother := by
    rw [Table.get?_set, lastGiven?_append]
    split
    · rfl
    · exact h.shown other hother
  unbarred := by
    rw [Table.get?_set, if_neg, h.unbarred]
    rintro rfl
    exact hbarred (by decide)
  others other hother hne := by
    rw [Table.get?_set, if_neg, h.others other hother hne]
    rintro rfl
    rw [hname] at hother
    cases hother
  distinct := h.distinct
  rest other := by
    rw [h.rest, lastGiven?_append]
    split
    · rfl
    · rename_i hother
      rw [if_neg]
      rintro rfl
      exact hother hname

/-- Any other name is written into the bag. -/
theorem inBag (h : Collected bag t u given) (hname : isContextName name = false) (v : Value) :
    Collected bag t (u.set name v) (given ++ [(name, v)]) where
  metadata := h.metadata
  shown other hother := by
    rw [h.shown other hother, lastGiven?_append, if_neg]
    rintro rfl
    rw [isContextName_of_mem_shownNames hother] at hname
    cases hname
  unbarred := h.unbarred
  others := h.others
  distinct := h.distinct.set _ _
  rest other := by
    rw [Table.get?_set, lastGiven?_append, h.rest]
    by_cases hother : name = other
    · subst hother
      simp [hname]
    · simp [hother]

/-- The mapping has the last values. -/
theorem get?_mapping (h : Collected bag t u given) (name : String) :
    ((Table.present (fun name => (lastGiven? given name).getD .null) shownNames).merge u).get? name = mapped? given name := by
  rw [Table.get?_merge h.distinct, Table.get?_present, h.rest]
  unfold mapped? told?
  by_cases hshown : name ∈ shownNames
  · have hcontains : shownNames.contains name = true := List.contains_iff_mem.mpr hshown
    rw [if_pos (isContextName_of_mem_shownNames hshown), hcontains, Bool.not_true, Bool.and_false, if_neg Bool.false_ne_true,
      if_pos rfl]
    cases hlast : lastGiven? given name with
    | none => simp
    | some v => by_cases hv : v = .null <;> simp [hv, hshown, Option.filter]
  · have hcontains : shownNames.contains name = false := by simpa using hshown
    rw [hcontains, if_neg Bool.false_ne_true]
    cases isContextName name <;> simp [hshown]

end Collected

/-! ### Contexts in a store -/

/-- Where the attributes of a context stand, and what it collects all else in. -/
structure Store.Collects (s : Store) (c d b : Nat) (t u : Table Value) : Prop where
  place : s.contexts.getD c 0 = d
  attrs : s.dict d = .ofTable t
  bag : s.dict b = .ofTable u
  apart : d ≠ b
  lt : d < s.dicts.size
  bag_lt : b < s.dicts.size

namespace Store.Collects
variable {s : Store} {c d b : Nat} {t u : Table Value} {name : String}

theorem setAttr (h : s.Collects c d b t u) (name : String) (v : Value) :
    (s.updateDict d fun t => t.set (.str name) v).Collects c d b (t.set name v) u where
  place := h.place
  attrs := by rw [dict_updateDict, if_pos ⟨rfl, h.lt⟩, h.attrs, Entries.set_ofTable]
  bag := by rw [dict_updateDict, if_neg fun e => h.apart e.1, h.bag]
  apart := h.apart
  lt := by simpa [updateDict] using h.lt
  bag_lt := by simpa [updateDict] using h.bag_lt

theorem setBag (h : s.Collects c d b t u) (name : String) (v : Value) :
    (s.updateDict b fun t => t.set (.str name) v).Collects c d b t (u.set name v) where
  place := h.place
  attrs := by rw [dict_updateDict, if_neg fun e => h.apart e.1.symm, h.attrs]
  bag := by rw [dict_updateDict, if_pos ⟨rfl, h.bag_lt⟩, h.bag, Entries.set_ofTable]
  apart := h.apart
  lt := by simpa [updateDict] using h.lt
  bag_lt := by simpa [updateDict] using h.bag_lt

theorem attr?_of_get? (h : s.Collects c d b t u) {w : Value} (hget : t.get? name = some w) (hname : name ≠ "__dict__") :
    s.attr? (.context c) name = some w := by
  have hfound : s.contextAttr? c name = some w := by
    unfold contextAttr?
    dsimp only
    rw [if_neg hname, h.place, h.attrs, Entries.named?_ofTable, hget]
  unfold attr? ownAttr?
  dsimp only
  rw [hfound]

theorem attr?_of_get?_none (h : s.Collects c d b t u) (hget : t.get? name = none) (hname : name ≠ "__dict__")
    (hclass : name ≠ "__class__") (hshown : name ∉ shownNames) : s.attr? (.context c) name = none := by
  have hfound : s.contextAttr? c name = none := by
    unfold contextAttr?
    dsimp only
    rw [if_neg hname, h.place, h.attrs, Entries.named?_ofTable, hget]
    exact if_neg fun h => hshown (List.contains_iff_mem.mp h)
  unfold attr? ownAttr?
  dsimp only
  rw [hfound]
  exact if_neg hclass

end Store.Collects

namespace Work
variable {m : Machine} {c d b : Nat} {t u given : Table Value} {name : String}

theorem gives_each {α β : Type} {f : α → Work β} {g : α → β} {l : List α} (h : ∀ a ∈ l, (f a).Gives m (g a) m) :
    (each f l).Gives m (l.map g) m := by
  induction l with
  | nil => exact gives_pure _ m
  | cons a l ih =>
    exact (h a (.head _)).bind ((ih fun a' ha' => h a' (.tail _ ha')).bind (gives_pure _ m))

theorem ne_of_isContextName {other : String} (hname : isContextName name = false) (hother : isContextName other = true) :
    name ≠ other := by
  rintro rfl
  rw [hname] at hother
  cases hother

/-- The attributes of a context are looked up without a request. -/
theorem gives_attr?_context (h : m.store.Collects c d b t u) (ht : Collected (.dict b) t u given)
    (hbarred : name ∉ barredNames) : (attr? (.context c) name).Gives m (t.get? name) m := by
  have hne (other : String) (hother : other ∈ barredNames) : name ≠ other := by
    rintro rfl
    exact hbarred hother
  cases hget : t.get? name with
  | some w => exact gives_attr?_of_isDirect rfl (h.attr?_of_get? hget (hne _ (by decide)))
  | none =>
    have hshown : name ∉ shownNames := by
      intro hname
      rw [ht.shown name hname] at hget
      cases hget
    have hnone : m.store.attr? (.context c) name = none :=
      h.attr?_of_get?_none hget (hne _ (by decide)) (hne _ (by decide)) hshown
    have hmethod : m.store.method (.context c) name = .error (m.store.lacking (.context c) name) := by
      unfold Store.method Store.attr
      dsimp only
      rw [hnone, if_neg (by simp [hne "to_dict" (by decide)])]
      rfl
    have hlacks : m.store.lacks (.context c) name = true := by
      unfold Store.lacks Store.methodLabel?
      dsimp only
      rw [hnone, hmethod]
      simp [hne "__dict__" (by decide), Store.furtherMethods]
    refine (gives_query _ m).bind fun σ => ?_
    rw [if_pos hlacks]
    rfl

/-- Whether a context has an attribute of a name does not depend on what was added to it. -/
theorem gives_hasAttribute_context (h : m.store.Collects c d b t u) (ht : Collected (.dict b) t u given)
    (hbarred : name ∉ barredNames) (hname : name ≠ "metadata") :
    (hasAttribute (.context c) name).Gives m (isContextName name) m := by
  refine (gives_special_of_instance? rfl _).bind ((gives_store m).bind ((gives_attr?_context h ht hbarred).bind fun σ => ?_))
  have hhas : m.store.hasAttr (.context c) name = ((m.store.attr? (.context c) name).isSome || isContextName name) :=
    Bool.or_assoc _ _ _
  rw [hhas]
  cases hcontext : isContextName name with
  | true => rw [Bool.or_true, Bool.true_or]; rfl
  | false =>
    have hget : t.get? name = none := ht.others name hcontext hname
    have hshown : name ∉ shownNames := by
      intro hmem
      rw [Collected.isContextName_of_mem_shownNames hmem] at hcontext
      cases hcontext
    have hattr : m.store.attr? (.context c) name = none :=
      h.attr?_of_get?_none hget (ne_of_isContextName hcontext (by decide)) (ne_of_isContextName hcontext (by decide)) hshown
    rw [hattr, hget]
    rfl

theorem gives_setAttribute_context (h : m.store.Collects c d b t u) (hbarred : name ∉ barredNames) (v : Value) :
    (setAttribute (.context c) name v).Gives m () { m with store := m.store.updateDict d fun t => t.set (.str name) v } := by
  have hset : m.store.setAttr (.context c) name v = .ok (m.store.updateDict d fun t => t.set (.str name) v) := by
    have hne (other : String) (hother : other ∈ barredNames) : name ≠ other := by
      rintro rfl
      exact hbarred hother
    unfold Store.setAttr Store.setContextAttr
    dsimp only
    rw [if_neg (hne _ (by decide)), if_neg (hne _ (by decide)), if_neg (hne _ (by decide)), h.place]
  have hwritten : (accessor? (.context c) name "__set__").Gives m none m := gives_accessor_of_isDirect rfl _ _ m
  refine hwritten.bind ((gives_special_of_instance? rfl _).bind fun σ => ?_)
  dsimp only
  unfold perhaps
  dsimp only
  rw [hset]
  rfl

theorem gives_attr_bag (h : m.store.Collects c d b t u) (ht : Collected (.dict b) t u given) :
    (attr (.context c) "metadata").Gives m (.dict b) m :=
  gives_attr_of_isDirect rfl (h.attr?_of_get? ht.metadata (by decide))

end Work

/-- A machine with other dictionaries. -/
def Machine.withDicts (m : Machine) (dicts : Array Entries) : Machine :=
  { m with store := { m.store with dicts := dicts } }

/-- A context after some values were added to it, which is all that became of the store. -/
structure Machine.Gathers (m : Machine) (c d b : Nat) (given : Table Value) (m' : Machine) : Prop where
  collected : ∃ t u, m'.store.Collects c d b t u ∧ Collected (.dict b) t u given
  others : ∀ k, k ≠ d → k ≠ b → m'.store.dict k = m.store.dict k
  same : ∃ dicts, m' = m.withDicts dicts

namespace Work
variable {m₀ m : Machine} {c d b : Nat} {given : Table Value}

theorem addToContext_eq {t u : Table Value} (h : m.store.Collects c d b t u) (ht : Collected (.dict b) t u given)
    {name : String} (hbarred : name ∉ barredNames) (v : Value) (σ : Service) : addToContext (.context c) name v σ m =
      (if isContextName name then setAttribute (.context c) name v
        else do setItem (← attr (.context c) "metadata") (.str name) v : Work Unit) σ m := by
  unfold addToContext
  by_cases hname : name = "metadata"
  · subst hname
    rfl
  · rw [if_neg hname, (gives_hasAttribute_context h ht hbarred hname).bind_eq]

/-- One value more is added. -/
theorem gives_addToContext (h : m₀.Gathers c d b given m) {name : String} (hbarred : name ∉ barredNames) (v : Value) :
    ∃ m', (addToContext (.context c) name v).Gives m () m' ∧ m₀.Gathers c d b (given ++ [(name, v)]) m' := by
  obtain ⟨⟨t, u, hkept, ht⟩, hothers, hsame⟩ := h
  -- The dictionary that is written to is the one of the attributes or the bag.
  have hmade (i : Nat) (hi : i < m.store.dicts.size) (hplace : i = d ∨ i = b)
      (hgives : (addToContext (.context c) name v).Gives m ()
        { m with store := m.store.updateDict i fun t => t.set (.str name) v })
      (hcollected : ∃ t u, (m.store.updateDict i fun t => t.set (.str name) v).Collects c d b t u ∧
        Collected (.dict b) t u (given ++ [(name, v)])) :
      ∃ m', (addToContext (.context c) name v).Gives m () m' ∧ m₀.Gathers c d b (given ++ [(name, v)]) m' := by
    refine ⟨_, hgives, hcollected, fun k hd hb => ?_, ?_⟩
    · have hk : i ≠ k := by
        rintro rfl
        exact hplace.elim hd hb
      rw [← hothers k hd hb]
      exact (Store.dict_updateDict _ _ _ k).trans (if_neg fun e => hk e.1)
    · obtain ⟨dicts, rfl⟩ := hsame
      exact ⟨_, rfl⟩
  cases hname : isContextName name with
  | true =>
    refine hmade d hkept.lt (.inl rfl) (fun σ => ?_) ⟨_, _, hkept.setAttr name v, ht.inPlace hname hbarred v⟩
    rw [addToContext_eq hkept ht hbarred, hname]
    exact gives_setAttribute_context hkept hbarred v σ
  | false =>
    refine hmade b hkept.bag_lt (.inr rfl) (fun σ => ?_) ⟨_, _, hkept.setBag name v, ht.inBag hname v⟩
    rw [addToContext_eq hkept ht hbarred, hname]
    exact (gives_attr_bag hkept ht).bind (gives_setEntry b name v m) σ

section
variable {i : Nat}

/-- The error that has a context is not told from where it was, whatever was added. -/
theorem gives_errorContext (hfault : m₀.store.attr? (.fault i) "context" = some (.context c)) (h : m₀.Gathers c d b given m) :
    (attr (.fault i) "context").Gives m (.context c) m := by
  obtain ⟨dicts, rfl⟩ := h.same
  exact gives_attr_of_isDirect rfl hfault

/-- One call adds its values one after the other. -/
theorem gives_withContext (hfault : m₀.store.attr? (.fault i) "context" = some (.context c)) {values : Table Value}
    (hbarred : ∀ e ∈ values, e.1 ∉ barredNames) (h : m₀.Gathers c d b given m) :
    ∃ m', (withContext (.fault i) values).Gives m () m' ∧ m₀.Gathers c d b (given ++ values) m' := by
  induction values generalizing given m with
  | nil => exact ⟨m, gives_pure _ m, (List.append_nil given).symm ▸ h⟩
  | cons e values ih =>
    obtain ⟨name, v⟩ := e
    obtain ⟨m₁, hone, h₁⟩ := gives_addToContext h (hbarred _ (.head _)) v
    obtain ⟨m₂, hrest, h₂⟩ := ih (fun e he => hbarred e (.tail _ he)) h₁
    rw [List.append_assoc] at h₂
    exact ⟨m₂, (gives_errorContext hfault h).bind (hone.bind hrest), h₂⟩

/-- Calls that add values to the context of an error, one after the other. -/
def addAll (fault : Value) : List (Table Value) → Work Unit
  | [] => return ()
  | values :: calls => do
    withContext fault values
    addAll fault calls

theorem gives_addAll (hfault : m₀.store.attr? (.fault i) "context" = some (.context c)) {calls : List (Table Value)}
    (hbarred : ∀ values ∈ calls, ∀ e ∈ values, e.1 ∉ barredNames) (h : m₀.Gathers c d b given m) :
    ∃ m', (addAll (.fault i) calls).Gives m () m' ∧ m₀.Gathers c d b (given ++ calls.flatten) m' := by
  induction calls generalizing given m with
  | nil => exact ⟨m, gives_pure _ m, (List.append_nil given).symm ▸ h⟩
  | cons values calls ih =>
    obtain ⟨m₁, hone, h₁⟩ := gives_withContext hfault (hbarred _ (.head _)) h
    obtain ⟨m₂, hrest, h₂⟩ := ih (fun values hvalues => hbarred values (.tail _ hvalues)) h₁
    rw [List.append_assoc] at h₂
    exact ⟨m₂, hone.bind hrest, h₂⟩

end

/-! ### The mapping -/

section
variable {t u : Table Value}

theorem gives_updateFrom {j : Nat} (hbag : m.store.dict b = .ofTable u) (hj : j < m.store.dicts.size)
    (hmapping : m.store.dict j = .ofTable t) : ∃ dicts, (updateFrom j (.dict b)).Gives m () (m.withDicts dicts) ∧
      dicts.getD j [] = .ofTable (t.merge u) := by
  let f (t : Entries) : Entries := (m.store.dict b).foldl (fun u e => m.store.setIn u e.1 e.2) t
  have hdict := Store.dict_updateDict m.store j f j
  rw [if_pos ⟨rfl, hj⟩, hmapping] at hdict
  refine ⟨(m.store.updateDict j f).dicts, (gives_query _ m).bind fun σ => rfl, hdict.trans ?_⟩
  unfold f
  rw [hbag, Store.foldl_setIn_ofTable]

theorem truthy_dict {s : Store} {j : Nat} (h : s.dict j = .ofTable t) : s.truthy (.dict j) = !t.isEmpty := by
  have htruthy : s.truthy (.dict j) = ((s.length? (.dict j)).all (· ≠ 0)) := by
    unfold Store.truthy
    rfl
  have hlength : s.length? (.dict j) = some (s.dict j).keys.length := rfl
  rw [htruthy, hlength, h]
  cases t <;> simp [Entries.ofTable, Entries.keys]

/-- The mapping of a context is a new dictionary of what was added last. -/
theorem gives_contextDict (h : m.store.Collects c d b t u) (ht : Collected (.dict b) t u given) : ∃ j dicts w,
    (contextDict (.context c)).Gives m (.dict j) (m.withDicts dicts) ∧
      dicts.getD j [] = .ofTable w ∧ w.Distinct ∧ ∀ name, w.get? name = mapped? given name := by
  let f (name : String) : Value := (lastGiven? given name).getD .null
  let parts : Table Value := Table.present f shownNames
  let m₁ : Machine := m.withDicts (m.store.dicts.push (.ofTable parts))
  have hdistinct : (parts.merge u).Distinct := (Table.distinct_present f (by decide)).merge u
  have hoverridden : m.store.attr? (.context c) "to_dict" = none :=
    h.attr?_of_get?_none ht.unbarred (by decide) (by decide) (by decide)
  have heach : (each (fun name => do return (Value.str name, ← attr (.context c) name)) shownNames).Gives m
      (shownNames.map fun name => (Value.str name, f name)) m := by
    refine gives_each fun name hname => ?_
    have hdict : name ≠ "__dict__" := by
      rintro rfl
      exact absurd hname (by decide)
    exact (gives_attr_of_isDirect rfl (h.attr?_of_get? (ht.shown name hname) hdict)).bind (gives_pure _ m)
  have hparts : ((shownNames.map fun name => (Value.str name, f name)).filter fun e => e.2 ≠ .null) =
      Entries.ofTable parts := by
    unfold parts Table.present Entries.ofTable
    rw [List.filter_map, List.filter_map, List.map_map]
    rfl
  have hbag : m₁.store.dict b = .ofTable u := by
    have hb := h.bag
    unfold Store.dict at hb ⊢
    unfold m₁ Machine.withDicts
    rw [← hb, Array.getD_eq_getD_getElem?, Array.getD_eq_getD_getElem?, Array.getElem?_push_lt h.bag_lt,
      Array.getElem?_eq_getElem h.bag_lt]
  have hnew : m₁.store.dict m.store.dicts.size = .ofTable parts := by
    simp [m₁, Machine.withDicts, Store.dict]
  have htruth : (truth (.dict b)).Gives m₁ (!u.isEmpty) m₁ := by
    rw [← truthy_dict hbag]
    exact gives_truth_of_not_isAsked rfl
  have hstart {w : Value} {m₂ : Machine} (hrest : (do
      if ← truth (.dict b) then updateFrom m.store.dicts.size (.dict b)
      return .dict m.store.dicts.size : Work Value).Gives m₁ w m₂) : (contextDict (.context c)).Gives m w m₂ := by
    refine (gives_query _ m).bind ?_
    rw [hoverridden]
    refine heach.bind ((gives_attr_bag h ht).bind ?_)
    rw [hparts]
    exact fun σ => hrest σ
  -- An empty bag is not asked for its entries.
  cases hempty : u.isEmpty with
  | true =>
    obtain rfl := List.isEmpty_iff.mp hempty
    have hgives : (contextDict (.context c)).Gives m (.dict m.store.dicts.size) m₁ := hstart (htruth.bind fun σ => rfl)
    exact ⟨_, _, parts, hgives, hnew, Table.distinct_present f (by decide), ht.get?_mapping⟩
  | false =>
    have hlt : m.store.dicts.size < m₁.store.dicts.size := by
      simp [m₁, Machine.withDicts]
    obtain ⟨dicts, hupdate, hdict⟩ := gives_updateFrom hbag hlt hnew
    refine ⟨_, dicts, parts.merge u, hstart (htruth.bind ?_), hdict, hdistinct, ht.get?_mapping⟩
    rw [hempty]
    exact hupdate.bind (gives_pure _ _)

end

/-! ### Errors with a context that nothing was added to -/

/-- The mapping of an error, around what it tells of its context. -/
def faultMapping (e : EngineFault) (fault context : Value) (message : String) (category : Category) (filled : Bool) :
    Work Datum := do
  let context ← if filled then do pure [("context", ← see context)] else pure []
  let cause ← attr fault "cause"
  let cause : List (String × Datum) ← if cause = .null then pure [] else do pure [("cause", .str (← printed cause))]
  return .obj ([("error_type", .str e.kind.name), ("message", .str message), ("category", .str category.name)] ++
    context ++ cause)

theorem gives_see_str (t : String) (m : Machine) : (see (.str t)).Gives m (.str t) m := fun _ => rfl

theorem seeFaultMapping_eq {i j : Nat} {e : EngineFault} {message : String} {category : Category} {dicts : Array Entries}
    {w : Table Value} (hmessage : e.message = .str message) (hcategory : e.category = .category category)
    (hcontext : (attr (.fault i) "context").Gives m (.context c) m)
    (hgives : (contextDict (.context c)).Gives m (.dict j) (m.withDicts dicts)) (hdict : dicts.getD j [] = .ofTable w)
    (σ : Service) : seeFaultMapping (.fault i) e σ m =
      faultMapping e (.fault i) (.dict j) message category (!w.isEmpty) σ (m.withDicts dicts) := by
  have hvalue : (attr (.category category) "value").Gives m (.str category.name) m := gives_attr_of_isDirect rfl rfl
  have htruth : (truth (.dict j)).Gives (m.withDicts dicts) (!w.isEmpty) (m.withDicts dicts) := by
    have hfilled : (m.withDicts dicts).store.truthy (.dict j) = !w.isEmpty := truthy_dict hdict
    rw [← hfilled]
    exact gives_truth_of_not_isAsked rfl
  unfold seeFaultMapping faultMapping
  rw [hmessage, hcategory, (gives_see_str message m).bind_eq, hvalue.bind_eq, (gives_see_str _ m).bind_eq,
    hcontext.bind_eq, hgives.bind_eq, htruth.bind_eq]

end Work

/-- Whether an error of the engine has a context of its own that nothing was added to. -/
structure Store.Fresh (s : Store) (i c d b : Nat) : Prop where
  context : s.attr? (.fault i) "context" = some (.context c)
  collects : s.Collects c d b [("processor", .null), ("stage", .null), ("file_path", .null), ("metadata", .dict b)] []

theorem Store.Fresh.collected (b : Nat) :
    Collected (.dict b) [("processor", .null), ("stage", .null), ("file_path", .null), ("metadata", .dict b)] [] [] where
  metadata := rfl
  shown name hname := by
    obtain rfl | rfl | rfl : name = "processor" ∨ name = "stage" ∨ name = "file_path" := by simpa [shownNames] using hname
    all_goals rfl
  unbarred := rfl
  others name hname hne := by
    have hother (other : String) (h : isContextName other = true) : other ≠ name := by
      rintro rfl
      rw [hname] at h
      cases h
    simp [Table.get?, hother "processor" (by decide), hother "stage" (by decide), hother "file_path" (by decide),
      Ne.symm hne]
  distinct := List.nodup_nil
  rest name := by cases isContextName name <;> rfl

namespace Work

/-- Calls that add values to the context of an error all end, and change nothing but that context. Then the context gives
a mapping, a new dictionary of the values that were given last; a name that is shown is left out where its last value is
null, and a name that every context has another attribute of is left out always, so that all is told if and only if there
was none of those. The mapping of the error has it, unless nothing stands in it. -/
theorem context_tells_last_given {m : Machine} {i c d b : Nat} {calls : List (Table Value)} (hfresh : m.store.Fresh i c d b)
    (hbarred : ∀ values ∈ calls, ∀ e ∈ values, e.1 ∉ barredNames) : ∃ m',
    (addAll (.fault i) calls).Gives m () m' ∧ (∃ dicts, m' = m.withDicts dicts) ∧
      (∀ k, k ≠ d → k ≠ b → m'.store.dict k = m.store.dict k) ∧
      ∃ j dicts w, (contextDict (.context c)).Gives m' (.dict j) (m'.withDicts dicts) ∧
        dicts.getD j [] = .ofTable w ∧ w.Distinct ∧ (∀ name, w.get? name = mapped? calls.flatten name) ∧
        ((∀ name, w.get? name = told? calls.flatten name) ↔
          ∀ values ∈ calls, ∀ e ∈ values, isContextName e.1 = true → e.1 ∈ shownNames) ∧
        ∀ {e : EngineFault} {message : String} {category : Category}, e.message = .str message →
          e.category = .category category → ∀ σ, seeFaultMapping (.fault i) e σ m' =
            faultMapping e (.fault i) (.dict j) message category (!w.isEmpty) σ (m'.withDicts dicts) := by
  have hholds : m.Gathers c d b [] m := ⟨⟨_, _, hfresh.collects, Store.Fresh.collected b⟩, fun _ _ _ => rfl, _, rfl⟩
  obtain ⟨m', hgives, h'⟩ := gives_addAll hfresh.context hbarred hholds
  obtain ⟨t, u, hkept, ht⟩ := h'.collected
  obtain ⟨j, dicts, w, hmapping, hdict, hdistinct, hget⟩ := gives_contextDict hkept ht
  refine ⟨m', hgives, h'.same, h'.others, j, dicts, w, hmapping, hdict, hdistinct, hget, ?_, fun hmessage hcategory σ => ?_⟩
  · simp only [hget]
    rw [List.nil_append, mapped?_eq_told?_iff]
    simp only [List.mem_flatten]
    constructor
    · exact fun h values hvalues e he => h e ⟨values, hvalues, he⟩
    · rintro h e ⟨values, hvalues, he⟩
      exact h values hvalues e he
  · exact seeFaultMapping_eq hmessage hcategory (gives_errorContext hfresh.context h') hmapping hdict σ

end Work

/-- A machine with an error of the engine that nothing was added to. -/
def Machine.reported : Machine :=
  { (default : Machine) with
    store := { (default : Store) with
      dicts := #[[], .ofTable [("processor", .null), ("stage", .null), ("file_path", .null), ("metadata", .dict 0)]]
      contexts := #[1]
      faults := #[.new (.engine ⟨.general, .str "boom", .category .internal, .context 0, .null, .null, .null⟩)
        (.tuple 0) .null] } }

namespace Work

theorem fresh_reported : Machine.reported.store.Fresh 0 0 1 0 where
  context := rfl
  collects := ⟨rfl, rfl, rfl, by decide, by decide, by decide⟩

theorem context_tells_last_given_reported :
    let calls : List (Table Value) := [[("processor", .str "p"), ("directive", .str "toc"), ("metadata", .int 1)],
      [("processor", .null), ("stage", .str "run"), ("directive", .int 5)]]
    ∃ m' j dicts w, (addAll (.fault 0) calls).Gives .reported () m' ∧
      (contextDict (.context 0)).Gives m' (.dict j) (m'.withDicts dicts) ∧ dicts.getD j [] = .ofTable w ∧
      w.get? "processor" = none ∧ w.get? "stage" = some (.str "run") ∧ w.get? "directive" = some (.int 5) ∧
      w.get? "metadata" = some (.int 1) := by
  intro calls
  have hbarred : ∀ values ∈ calls, ∀ e ∈ values, e.1 ∉ barredNames := by decide
  obtain ⟨m', hgives, -, -, j, dicts, w, hmapping, hdict, -, hget, -⟩ := context_tells_last_given fresh_reported hbarred
  refine ⟨m', j, dicts, w, hgives, hmapping, hdict, ?_, ?_, ?_, ?_⟩
  all_goals
    rw [hget]
    decide

/-- A value that is given under the name of an attribute is not told, and one that stands in for the method that gives the
mapping keeps it from being given at all. -/
theorem names_of_attributes_amiss :
    let told (name : String) : Outcome Value × Machine :=
      (do withContext (.fault 0) [(name, .int 5)]; contextDict (.context 0) : Work Value) (service 2) .reported
    told? [("__doc__", .int 5)] "__doc__" = some (.int 5) ∧
      (told "__doc__").1 = .done (.dict 2) ∧ (told "__doc__").2.store.dict 2 = [] ∧
      (told "to_dict").1 = .raised (.fault 1) := by
  refine ⟨by decide, ?_, ?_, ?_⟩
  all_goals rfl

end Work
end Treeworks
