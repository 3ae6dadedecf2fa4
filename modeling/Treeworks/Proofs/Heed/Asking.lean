import Treeworks.Position
import Treeworks.Proofs.Heed.Frame

/-! Asking objects for attributes, truth, size, elements, entries and texts heeds every frame: the methods that
their classes define for that are answers to requests. -/
namespace Treeworks.Work
variable {α : Type} {F : Frame}

@[grind ←]
theorem heeds_special (v : Value) (name : String) : (special? v name).Heeds F := by
  unfold special?
  grind

@[grind ←]
theorem heeds_callSpecial (m : Value × List Value) (args : List Value) : (callSpecial m args).Heeds F := heeds_serve rfl

/-! ### Numbers and truth -/

@[grind ←]
theorem heeds_wholeOf (v : Value) : (wholeOf v).Heeds F := by
  unfold wholeOf
  grind

@[grind ←]
theorem heeds_sizeBy (m : Value × List Value) : (sizeBy m).Heeds F := by
  unfold sizeBy
  grind

@[grind ←]
theorem heeds_sizeAt (fuel : Nat) (v : Value) : (sizeAt fuel v).Heeds F := by
  fun_induction sizeAt fuel v <;> grind

@[grind ←]
theorem heeds_size (v : Value) : (size v).Heeds F := heeds_sizeAt _ v

@[grind ←]
theorem heeds_truth (v : Value) : (truth v).Heeds F := by
  unfold truth
  grind

@[grind ←]
theorem heeds_trueOr (v standard : Value) : (trueOr v standard).Heeds F := by
  unfold trueOr
  grind

@[grind ←]
theorem heeds_secondsOf (v : Value) : (secondsOf v).Heeds F := by
  unfold secondsOf
  grind

@[grind ←]
theorem heeds_milliseconds (span : Span) : (milliseconds span).Heeds F := by
  unfold milliseconds
  grind

/-! ### Attributes -/

/-- A class is given annotations when it is asked for them. -/
theorem heeds_annotate (i : Nat) (annotations : Value) : Work.Heeds F (modifyStore fun s => s.updateType i fun t =>
    { t with attrs := t.attrs.set "__annotations__" annotations }) :=
  heeds_modify fun m => F.annotated m i annotations

@[grind ←]
theorem heeds_madeAttribute (v : Value) (name : String) : (madeAttribute v name).Heeds F := by
  unfold madeAttribute
  refine heeds_bind heeds_store fun s => ?_
  split
  case h_3 i =>
    refine heeds_bind (heeds_newDict []) fun annotations => ?_
    exact heeds_bind (heeds_annotate i annotations) fun _ => heeds_pure _
  all_goals grind

@[grind ←]
theorem heeds_accessor (v : Value) (name method : String) : (accessor? v name method).Heeds F := by
  unfold accessor?
  grind

@[grind ←]
theorem heeds_readValue (v : Value) (name : String) : (readValue? v name).Heeds F := by
  unfold readValue?
  grind

@[grind ←]
theorem heeds_found (v : Value) (name : String) : (found? v name).Heeds F := by
  unfold found?
  refine heeds_bind (heeds_readValue v name) fun w => ?_
  split
  · exact heeds_pure _
  · refine heeds_bind heeds_store fun s => ?_
    split
    · exact heeds_madeAttribute v name
    · split <;> grind

@[grind ←]
theorem heeds_attr (v : Value) (name : String) : (attr v name).Heeds F := by
  unfold attr
  refine heeds_bind (heeds_special v _) fun m => ?_
  extract_lets ending
  have hending (found : Except Value Value) : (ending found).Heeds F := by
    unfold ending
    cases found <;> grind
  split
  · exact heeds_bind (heeds_attempt (heeds_callSpecial _ _)) hending
  · refine heeds_bind (heeds_attempt (heeds_found v name)) fun found => ?_
    split
    · exact heeds_bind (heeds_pure _) hending
    · exact heeds_bind (heeds_attempt (heeds_failLacking v name)) hending
    · exact heeds_bind (heeds_pure _) hending

@[grind ←]
theorem heeds_attr? (v : Value) (name : String) : (attr? v name).Heeds F := by
  unfold attr?
  grind

@[grind ←]
theorem heeds_attrOrNull (v : Value) (name : String) : (attrOrNull v name).Heeds F := by
  unfold attrOrNull
  grind

@[grind ←]
theorem heeds_hasAttribute (v : Value) (name : String) : (hasAttribute v name).Heeds F := by
  unfold hasAttribute
  grind

@[grind ←]
theorem heeds_callMethod (v : Value) (name : String) (args : List Value) : (callMethod v name args).Heeds F := by
  unfold callMethod
  grind

@[grind ←]
theorem heeds_overridden (v : Value) (name : String) (args : List Value) {usual : Work Value} (h : usual.Heeds F) :
    (overridden v name args usual).Heeds F := by
  unfold overridden
  grind

/-! ### Elements -/

@[grind ←]
theorem heeds_remaining (iterator : Value) (m : Value × List Value) (fuel : Nat) :
    (remaining iterator m fuel).Heeds F := by
  fun_induction remaining iterator m fuel <;> grind

@[grind ←]
theorem heeds_itemsFrom (m : Value × List Value) (i fuel : Nat) : (itemsFrom m i fuel).Heeds F := by
  fun_induction itemsFrom m i fuel <;> grind

@[grind ←]
theorem heeds_elementsBy (v : Value) : (elementsBy v).Heeds F := by
  unfold elementsBy
  grind

@[grind ←]
theorem heeds_elements (v : Value) : (elements v).Heeds F := by
  unfold elements
  grind

/-! ### Sameness -/

@[grind ←]
theorem heeds_numberBy (m : Value × List Value) : (numberBy m).Heeds F := by
  unfold numberBy
  grind

@[grind ←]
theorem heeds_numberOf (fuel : Nat) (v : Value) : (numberOf fuel v).Heeds F := by
  induction fuel generalizing v with
  | zero => exact heeds_fail _
  | succ fuel ih =>
    unfold numberOf
    refine heeds_bind heeds_store fun s => ?_
    split <;> grind

@[grind ←]
theorem heeds_elementNumber (v : Value) : (elementNumber v).Heeds F := heeds_numberOf _ v

@[grind ←]
theorem heeds_isSame (a b : Value) : (isSame a b).Heeds F := by
  unfold isSame
  grind

@[grind ←]
theorem heeds_isAmong (v : Value) (vs : List Value) : (isAmong v vs).Heeds F := by
  fun_induction isAmong v vs <;> grind

@[grind ←]
theorem heeds_contains (e : Elements) (v : Value) : (contains e v).Heeds F := by
  unfold contains
  grind

@[grind ←]
theorem heeds_withElement (e : Elements) (v : Value) : (withElement e v).Heeds F := by
  unfold withElement
  grind

@[grind ←]
theorem heeds_withAll (e : Elements) (vs : List Value) : (elementsOf.withAll e vs).Heeds F := by
  induction vs generalizing e with
  | nil => exact heeds_pure e
  | cons v vs ih => exact heeds_bind (heeds_withElement e v) ih

@[grind ←]
theorem heeds_elementsOf (vs : List Value) : (elementsOf vs).Heeds F := heeds_withAll _ vs

@[grind ←]
theorem heeds_firstSame (key : Value) (vs : List Value) : (keyAmong?.firstSame key vs).Heeds F := by
  fun_induction keyAmong?.firstSame key vs <;> grind

@[grind ←]
theorem heeds_keyAmong (t : Entries) (key : Value) : (keyAmong? t key).Heeds F := by
  unfold keyAmong?
  grind

@[grind ←]
theorem heeds_valueUnder (t : Entries) (key : Value) : (valueUnder? t key).Heeds F := by
  unfold valueUnder?
  grind

/-! ### Entries and changes -/

@[grind ←]
theorem heeds_setEntry (dict : Nat) (key value : Value) : (setEntry dict key value).Heeds F := by
  unfold setEntry
  grind

@[grind ←]
theorem heeds_itemOf (v key : Value) : (itemOf v key).Heeds F := by
  unfold itemOf
  grind

@[grind ←]
theorem heeds_setItem (v key value : Value) : (setItem v key value).Heeds F := by
  unfold setItem
  grind

@[grind ←]
theorem heeds_getEntry (v key : Value) : (getEntry v key).Heeds F := by
  unfold getEntry
  grind

theorem heeds_setAttribute {v : Value} {name : String} (h : F.stores v name) (value : Value) :
    (setAttribute v name value).Heeds F := by
  have hperhaps (v : Value) (h : F.stores v name) (value : Value) :
      Work.Heeds F (perhaps fun s => do return ((), ← s.setAttr v name value)) := by
    refine heeds_perhaps fun {m a s} hs => ?_
    cases hset : m.store.setAttr v name value with
    | error e =>
      rw [hset] at hs
      cases hs
    | ok s' =>
      rw [hset] at hs
      cases hs
      by_cases htype : ∃ i, v = .type i
      · obtain ⟨i, rfl⟩ := htype
        exact F.stored h hset
      · exact F.settled rfl (Store.settled_setAttr (fun i hi => htype ⟨i, hi⟩) hset) rfl
  unfold setAttribute
  extract_lets store
  have hstore (written : Option (Value × List Value)) : (store written).Heeds F := by
    refine heeds_bind (heeds_special _ _) fun method => ?_
    split
    · grind
    · grind
    · exact heeds_bind (heeds_elements _) fun _ => heeds_bind (heeds_newTuple _) fun args => hperhaps _ h args
    · exact hperhaps v h value
  split
  · exact heeds_bind (heeds_pure _) hstore
  · exact heeds_bind (heeds_accessor _ _ _) hstore

@[grind ←]
theorem heeds_append (v value : Value) : (append v value).Heeds F := by
  unfold append
  grind

/-! ### Names and texts -/

@[grind ←]
theorem heeds_isAwaitable (v : Value) : (isAwaitable v).Heeds F := by
  unfold isAwaitable
  grind

@[grind ←]
theorem heeds_describe (v : Value) : (describe v).Heeds F := by
  unfold describe
  grind

@[grind ←]
theorem heeds_textBy (m : Value × List Value) (args : List Value) : (textBy m args).Heeds F := by
  unfold textBy
  grind

end Treeworks.Work
