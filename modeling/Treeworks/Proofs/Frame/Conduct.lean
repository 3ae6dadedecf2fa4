import Treeworks.Proofs.Frame.Discipline

/-! Asking objects for attributes, truth, size, elements and entries keeps to every discipline: the methods that their
classes define for that are answers to requests, and what the library does besides is to look and to make new objects. -/
namespace Treeworks.Work
variable {α : Type} {D : Discipline}

@[grind ←]
theorem keeps_special (v : Value) (name : String) : (special? v name).Keeps D := by
  unfold special?
  grind

@[grind ←]
theorem keeps_callSpecial (m : Value × List Value) (args : List Value) : (callSpecial m args).Keeps D := keeps_serve _

@[grind ←]
theorem keeps_isPlainFault (kinds : List PlainKind) (e : Value) : (isPlainFault kinds e).Keeps D := by
  unfold isPlainFault
  grind

@[grind ←]
theorem keeps_orNone (kinds : List PlainKind) {w : Work α} (hw : w.Keeps D) : (orNone kinds w).Keeps D := by
  unfold orNone
  grind

/-! ### Numbers and truth -/

@[grind ←]
theorem keeps_wholeOf (v : Value) : (wholeOf v).Keeps D := by
  unfold wholeOf
  grind

@[grind ←]
theorem keeps_sizeBy (m : Value × List Value) : (sizeBy m).Keeps D := by
  unfold sizeBy
  grind

@[grind ←]
theorem keeps_sizeAt (fuel : Nat) (v : Value) : (sizeAt fuel v).Keeps D := by
  fun_induction sizeAt fuel v <;> grind

@[grind ←]
theorem keeps_size (v : Value) : (size v).Keeps D := keeps_sizeAt _ v

@[grind ←]
theorem keeps_truth (v : Value) : (truth v).Keeps D := by
  unfold truth
  grind

@[grind ←]
theorem keeps_secondsOf (v : Value) : (secondsOf v).Keeps D := by
  unfold secondsOf
  grind

@[grind ←]
theorem keeps_milliseconds (span : Span) : (milliseconds span).Keeps D := by
  unfold milliseconds
  grind

/-! ### Attributes -/

@[grind ←]
theorem keeps_madeAttribute (v : Value) (name : String) : (madeAttribute v name).Keeps D := by
  have hannotate (i : Nat) (w : Value) :
      (modifyStore fun s => s.updateType i fun t => { t with attrs := t.attrs.set "__annotations__" w }).Keeps D :=
    keeps_modifyStore fun m => D.aside (.annotate m i w)
  unfold madeAttribute
  refine keeps_bind keeps_store fun s => ?_
  split
  case h_3 => exact keeps_bind (keeps_newDict _) fun w => keeps_bind (hannotate _ w) fun _ => keeps_pure _
  case h_4 => exact keeps_bind (keeps_makeSet _) fun _ => keeps_pure _
  all_goals grind

@[grind ←]
theorem keeps_accessor (v : Value) (name method : String) : (accessor? v name method).Keeps D := by
  unfold accessor?
  grind

@[grind ←]
theorem keeps_readValue (v : Value) (name : String) : (readValue? v name).Keeps D := by
  unfold readValue?
  grind

@[grind ←]
theorem keeps_found (v : Value) (name : String) : (found? v name).Keeps D := by
  unfold found?
  refine keeps_bind (keeps_readValue v name) fun w => ?_
  split
  · exact keeps_pure _
  · refine keeps_bind keeps_store fun s => ?_
    split
    · exact keeps_madeAttribute v name
    · split <;> grind

@[grind ←]
theorem keeps_attr (v : Value) (name : String) : (attr v name).Keeps D := by
  unfold attr
  refine keeps_bind (keeps_special v _) fun m => ?_
  extract_lets ending
  have hending (found : Except Value Value) : (ending found).Keeps D := by
    unfold ending
    cases found <;> grind
  split
  · exact keeps_bind (keeps_attempt (keeps_callSpecial _ _)) hending
  · refine keeps_bind (keeps_attempt (keeps_found v name)) fun found => ?_
    split
    · exact keeps_bind (keeps_pure _) hending
    · exact keeps_bind (keeps_attempt (keeps_failLacking v name)) hending
    · exact keeps_bind (keeps_pure _) hending

@[grind ←]
theorem keeps_attr? (v : Value) (name : String) : (attr? v name).Keeps D := by
  unfold attr?
  grind

@[grind ←]
theorem keeps_attrOrNull (v : Value) (name : String) : (attrOrNull v name).Keeps D := by
  unfold attrOrNull
  grind

@[grind ←]
theorem keeps_callMethod (v : Value) (name : String) (args : List Value) : (callMethod v name args).Keeps D := by
  unfold callMethod
  grind

@[grind ←]
theorem keeps_overridden (v : Value) (name : String) (args : List Value) {usual : Work Value} (h : usual.Keeps D) :
    (overridden v name args usual).Keeps D := by
  unfold overridden
  grind

/-! ### Elements -/

@[grind ←]
theorem keeps_remaining (iterator : Value) (m : Value × List Value) (fuel : Nat) :
    (remaining iterator m fuel).Keeps D := by
  fun_induction remaining iterator m fuel <;> grind

@[grind ←]
theorem keeps_itemsFrom (m : Value × List Value) (i fuel : Nat) : (itemsFrom m i fuel).Keeps D := by
  fun_induction itemsFrom m i fuel <;> grind

@[grind ←]
theorem keeps_elementsBy (v : Value) : (elementsBy v).Keeps D := by
  unfold elementsBy
  grind

@[grind ←]
theorem keeps_elements (v : Value) : (elements v).Keeps D := by
  unfold elements
  grind

/-! ### Sameness -/

@[grind ←]
theorem keeps_numberBy (m : Value × List Value) : (numberBy m).Keeps D := by
  unfold numberBy
  grind

@[grind ←]
theorem keeps_numberOf (fuel : Nat) (v : Value) : (numberOf fuel v).Keeps D := by
  induction fuel generalizing v with
  | zero => exact keeps_fail _
  | succ fuel ih =>
    unfold numberOf
    refine keeps_bind keeps_store fun s => ?_
    split <;> grind

@[grind ←]
theorem keeps_elementNumber (v : Value) : (elementNumber v).Keeps D := keeps_numberOf _ v

@[grind ←]
theorem keeps_isSame (a b : Value) : (isSame a b).Keeps D := by
  unfold isSame
  grind

@[grind ←]
theorem keeps_isAmong (v : Value) (vs : List Value) : (isAmong v vs).Keeps D := by
  fun_induction isAmong v vs <;> grind

@[grind ←]
theorem keeps_contains (e : Elements) (v : Value) : (contains e v).Keeps D := by
  unfold contains
  grind

@[grind ←]
theorem keeps_firstSame (key : Value) (vs : List Value) : (keyAmong?.firstSame key vs).Keeps D := by
  fun_induction keyAmong?.firstSame key vs <;> grind

@[grind ←]
theorem keeps_keyAmong (t : Entries) (key : Value) : (keyAmong? t key).Keeps D := by
  unfold keyAmong?
  grind

@[grind ←]
theorem keeps_valueUnder (t : Entries) (key : Value) : (valueUnder? t key).Keeps D := by
  unfold valueUnder?
  grind

@[grind ←]
theorem keeps_itemOf (v key : Value) : (itemOf v key).Keeps D := by
  unfold itemOf
  grind

@[grind ←]
theorem keeps_getEntry (v key : Value) : (getEntry v key).Keeps D := by
  unfold getEntry
  grind

/-- An entry is written into a dictionary that is spare. -/
theorem keepsWith_setEntry (i : Nat) (key value : Value) : (setEntry i key value).KeepsWith D (.dict i) := by
  refine keepsWith_bind keeps_store fun s => keepsWith_bind (keeps_keyAmong _ _) fun k => ?_
  exact fun _ _ m h => D.write_dict h _

/-! ### Names -/

@[grind ←]
theorem keeps_isAwaitable (v : Value) : (isAwaitable v).Keeps D := by
  unfold isAwaitable
  grind

@[grind ←]
theorem keeps_describe (v : Value) : (describe v).Keeps D := by
  unfold describe
  grind

end Treeworks.Work
