import Treeworks.Machine
import Treeworks.Element

/-! What objects do when they are asked for an attribute, for their truth, their size, their elements or an
entry, or whether they are the same as others. The class of an instance can define each of these by a method. -/
namespace Treeworks.Work

/-- The method that the class of an instance defines for something that the language asks of it: what is
called, and what goes before the other arguments. -/
def special? (v : Value) (name : String) : Work (Option (Value × List Value)) := do
  let s ← store
  match s.instance? v with
  | none => return none
  | some x =>
    match s.typeAttr? x.type name with
    | none => return none
    | some (.slot type slot) =>
      match x.slots.get? (.slot type slot) with
      | some f => return some (f, [])
      | none => failLacking v name
    | some f => return some (f, s.leading v x.type name f)

/-- Calls a method of the language. -/
def callSpecial (m : Value × List Value) (args : List Value) : Work Value :=
  serve (.call m.1 (m.2 ++ args) [])

/-- Whether an error is of a class that does not hold an error of the engine. -/
def isPlainFault (kinds : List PlainKind) (error : Value) : Work Bool := do
  match error with
  | .fault i =>
    match (← query (·.fault i)).detail with
    | .plain kind => return kinds.contains kind
    | _ => return false
  | _ => return false

/-- The result of work; none if it raises an error of one of some classes. -/
def orNone {α : Type} (kinds : List PlainKind) (w : Work α) : Work (Option α) := do
  match ← attempt w with
  | .ok a => return some a
  | .error e => if ← isPlainFault kinds e then return none else reraise e

/-! ### Numbers and truth -/

/-- The whole number that a value stands for where a whole number is needed. -/
def wholeOf (v : Value) : Work Int := do
  match v.whole?, ← special? v "__index__" with
  | some n, _ => return n
  | none, some m =>
    match ← callSpecial m [] with
    | .bool b => return if b then 1 else 0
    | .int n => return n
    | w => failFor w .notWhole
  | none, none => failFor v .notWhole

/-- The size that a method gives. -/
def sizeBy (m : Value × List Value) : Work Nat := do
  let n ← wholeOf (← callSpecial m [])
  if Int.pow 2 63 ≤ n || n < -Int.pow 2 63 then fail .tooGreat
  if n < 0 then fail .negativeLength
  return n.toNat

/-- The number of items of a value that has items; a ware has its steps. The fuel bounds how often wares stand
in for lists of steps. -/
def sizeAt : Nat → Value → Work Nat
  | 0, _ => fail .tooDeep
  | fuel + 1, v => do
    let s ← store
    match v, ← special? v "__len__" with
    | .ware i, _ => sizeAt fuel (s.runner.ware i).steps
    | _, some m => sizeBy m
    | v, none =>
      match s.length? v with
      | some n => return n
      | none => failFor v .notSized

/-- The number of items of a value that has items. -/
def size (v : Value) : Work Nat := sizeAt Store.elementDepth v

/-- Whether a value counts as true. -/
def truth (v : Value) : Work Bool := do
  match v, ← special? v "__bool__" with
  | .ware _, _ => return (← size v) ≠ 0
  | _, some m =>
    match ← callSpecial m [] with
    | .bool b => return b
    | w => failFor w .notTruth
  | v, none =>
    match ← special? v "__len__" with
    | some m => return (← sizeBy m) ≠ 0
    | none => return (← store).truthy v

/-- The seconds that a value stands for. -/
def secondsOf (v : Value) : Work Float := do
  match v, v.whole? with
  | .float x, _ => return x
  | _, some n => if (Float.ofInt n).isInf then fail .tooGreat else return Float.ofInt n
  | v, none => failFor v .notNumber

/-- The duration of a span in milliseconds. -/
def milliseconds (span : Span) : Work Value := do
  let ended := if span.endedAt = .null then Value.float 0 else span.endedAt
  match ended.whole?, span.startedAt.whole? with
  | some m, some n => return .int ((m - n) * 1000)
  | _, _ => return .float (((← secondsOf ended) - (← secondsOf span.startedAt)) * 1000)

/-! ### Attributes -/

/-- What stands among the attributes of an object that keeps no dictionary of them. -/
def attributesOf (s : Store) : Value → Option (Table Value)
  | .file i => some (Table.merge (Store.carrierAttrs (s.file i)) (s.file i).attrs)
  | .fault i => some (Table.merge (s.fault i).detail.attrs (s.fault i).attrs)
  | _ => none

/-- An attribute that is made when it is asked for: a collection of parts, or a method as a value. -/
def madeAttribute (v : Value) (name : String) : Work (Option Value) := do
  let s ← store
  let types (is : List Nat) : List Value := is.map .type
  match v, name with
  | .type i, "__mro__" => return some (← newTuple (types (s.type i).ancestry ++ [.native "object"]))
  | .type i, "__bases__" =>
    let bases := (s.type i).bases
    return some (← newTuple (if bases.isEmpty then [.native "object"] else types bases))
  | .type i, "__annotations__" =>
    let annotations ← newDict []
    modifyStore fun s => s.updateType i fun t => { t with attrs := t.attrs.set name annotations }
    return some annotations
  | .ware i, "_pending" =>
    let futures := (s.runner.ware i).pending.map Value.future
    return some (← make fun s => s.addSet (futures.foldl (fun e v => e.add none v) .empty))
  | .span i, "duration_ms" => return some (← milliseconds (s.span i))
  | v, "__dict__" =>
    match attributesOf s v with
    | some t => return some (← newDict t)
    | none => return none
  | v, name =>
    match s.method v name, s.methodLabel? v name with
    | .ok method, some label => return some (← newFunction (.bound label method))
    | .error _, some label => return some (← newFunction (.bound label (.value v [])))
    | _, none => return none

/-- How a value that a class offers under a name is read or written there, if the value says that itself. -/
def accessor? (v : Value) (name method : String) : Work (Option (Value × List Value)) := do
  let s ← store
  let offered := match v with
    | .type i => s.typeAttr? i name
    | v => (s.instance? v).bind fun x => s.typeAttr? x.type name
  match offered with
  | some w => special? w method
  | none => return none

/-- What a value that a class offers under a name gives where it is read. An attribute that an instance has of its
own comes first, unless the value also says how it is written. -/
def readValue? (v : Value) (name : String) : Work (Option Value) := do
  let s ← store
  match ← accessor? v name "__get__", s.instance? v with
  | none, _ => return none
  | some m, none => return some (← callSpecial m [.null, v])
  | some m, some x =>
    let writes := (← accessor? v name "__set__").isSome || (← accessor? v name "__delete__").isSome
    if writes || (s.field? x name).isNone then return some (← callSpecial m [v, .type x.type]) else return none

/-- An attribute as it is found: a plain function that a class offers to an instance is a method of the instance. -/
def found? (v : Value) (name : String) : Work (Option Value) := do
  match ← readValue? v name with
  | some w => return some w
  | none =>
    let s ← store
    match s.attr? v name with
    | none => madeAttribute v name
    | some w =>
      match s.method v name with
      | .ok (.value f (first :: rest)) =>
        return some (← newFunction (.bound (s.functionName f) (.value f (first :: rest))))
      | _ => return some w

/-- An attribute that a value has to have. Its class can say how attributes are found, and what stands in for
those that are not. -/
def attr (v : Value) (name : String) : Work Value := do
  let found ← match ← special? v "__getattribute__" with
    | some m => attempt (callSpecial m [.str name])
    | none =>
      match ← attempt (found? v name) with
      | .ok (some w) => pure (.ok w)
      | .ok none => attempt (failLacking v name)
      | .error e => pure (.error e)
  match found with
  | .ok w => return w
  | .error e =>
    if ← isPlainFault [.attribute, .frozen] e then
      match ← special? v "__getattr__" with
      | some m => callSpecial m [.str name]
      | none => reraise e
    else reraise e

/-- An attribute of a value, if it has one. No error is made for a value that is plainly without it. -/
def attr? (v : Value) (name : String) : Work (Option Value) := do
  if ← query (·.lacks v name) then return none else orNone [.attribute, .frozen] (attr v name)

/-- An attribute of a value; null if it has none. -/
def attrOrNull (v : Value) (name : String) : Work Value := do return (← attr? v name).getD .null

/-- Whether a value has an attribute. -/
def hasAttribute (v : Value) (name : String) : Work Bool := do
  match ← special? v "__getattribute__" with
  | some _ => return (← attr? v name).isSome
  | none => return (← store).hasAttr v name || (← attr? v name).isSome

/-- Calls a method of a value. -/
def callMethod (v : Value) (name : String) (args : List Value) : Work Value := do
  match ← special? v "__getattribute__", ← accessor? v name "__get__", ← query (·.method v name) with
  | none, none, .ok method => serve (.invoke method args)
  | _, _, _ => serve (.call (← attr v name) args [])

/-- What calls of a method give that was stored on an object, or else what they usually give. -/
def overridden (v : Value) (name : String) (args : List Value) (usual : Work Value) : Work Value := do
  match ← query (·.attr? v name) with
  | some f => serve (.call f args [])
  | none => usual

/-! ### Elements -/

/-- The elements that an iterator still gives. It has no way to end but by an error. -/
def remaining (iterator : Value) (m : Value × List Value) : Nat → Work (List Value)
  | 0 => exhausted
  | fuel + 1 => do
    let v ← callSpecial m []
    return v :: (← remaining iterator m fuel)

/-- The items of a value from an index on, up to the first that is not there. -/
def itemsFrom (m : Value × List Value) (i : Nat) : Nat → Work (List Value)
  | 0 => exhausted
  | fuel + 1 => do
    match ← orNone [.index] (callSpecial m [.int i]) with
    | some v => return v :: (← itemsFrom m (i + 1) fuel)
    | none => return []

/-- The elements that a value gives by its own methods. -/
def elementsBy (v : Value) : Work (List Value) := do
  match ← special? v "__iter__" with
  | some m =>
    let iterator ← callSpecial m []
    match ← special? iterator "__next__" with
    | some m => remaining iterator m rounds
    | none => failFor iterator .notIterable
  | none =>
    match ← special? v "__getitem__" with
    | some m => itemsFrom m 0 rounds
    | none => failFor v .notIterable

/-- The elements that a value gives when it is gone through. -/
def elements (v : Value) : Work (List Value) := do
  match ← query (·.elements? v) with
  | some vs => return vs
  | none => elementsBy v

/-! ### Sameness -/

/-- The number that a method gives for an instance, within the bounds of a word. -/
def numberBy (m : Value × List Value) : Work Nat := do
  match (← callSpecial m []).whole? with
  | some n =>
    if n = -1 then return Value.signedNumber true 1
    else if -Int.pow 2 63 ≤ n && n < Int.pow 2 63 then return (n % Int.pow 2 64).toNat
    else return Value.signedNumber (n < 0) (n.natAbs % Value.reduction)
  | none => fail (.notWhole "hash")

/-- The number by which a value is kept as an element; none for a value that is kept as it came. What can be
changed in place, or is compared by content that can, is no element. The fuel bounds the nesting. -/
def numberOf : Nat → Value → Work (Option Nat)
  | 0, _ => fail .tooDeep
  | fuel + 1, v => do
    let s ← store
    match v with
    | .list _ | .dict _ | .set _ | .record _ | .view _ | .context _ | .ware _ | .passage _ | .span _ | .step .. =>
      failFor v .notHashable
    | .tuple i => return ((← each (numberOf fuel) (s.tuple i)).mapM id).map Value.sequenceNumber
    | .point i =>
      let numbers ← each (numberOf fuel) [(s.point i).line, (s.point i).column]
      return (numbers.mapM id).map Value.sequenceNumber
    | v =>
      match ← special? v "__hash__" with
      | some (.null, _) => failFor v .notHashable
      | some m => return some (← numberBy m)
      | none => return v.slotNumber?

/-- The number by which a value is kept as an element. -/
def elementNumber (v : Value) : Work (Option Nat) := numberOf Store.elementDepth v

/-- Whether the class of a value comes from that of another and is not the same. -/
def refines (s : Store) (b a : Value) : Bool :=
  match s.instance? a, s.instance? b with
  | some x, some y => x.type ≠ y.type && s.descends y.type x.type
  | _, _ => false

/-- Whether two values are the same: one of them may say so by a method, the second first if its class refines
that of the first. -/
def isSame (a b : Value) : Work Bool := do
  if a = b then return true
  let (a, b) := if ← query (refines · b a) then (b, a) else (a, b)
  match ← special? a "__eq__", ← special? b "__eq__" with
  | some m, _ => truth (← callSpecial m [b])
  | none, some m => truth (← callSpecial m [a])
  | none, none => return (← store).sameElement Store.elementDepth a b

/-- Whether a value is the same as one of some. -/
def isAmong (v : Value) : List Value → Work Bool
  | [] => pure false
  | w :: rest => do if ← isSame w v then return true else isAmong v rest

/-- Whether a value is an element of a set. -/
def contains (e : Elements) (v : Value) : Work Bool := do isAmong v (e.candidates (← elementNumber v))

/-- The elements of a set with one more, unless it is there. -/
def withElement (e : Elements) (v : Value) : Work Elements := do
  let number ← elementNumber v
  if ← isAmong v (e.candidates number) then return e else return e.add number v

/-- The elements of a set that is made of values. -/
def elementsOf (values : List Value) : Work Elements := withAll .empty values
where
  /-- The elements with some values more. -/
  withAll (e : Elements) : List Value → Work Elements
    | [] => pure e
    | v :: rest => do withAll (← withElement e v) rest

/-! ### Entries -/

/-- The key among some entries that is the same as a value. -/
def keyAmong? (t : Entries) (key : Value) : Work (Option Value) := do
  let number ← elementNumber key
  match ← query (·.instance? key) with
  | none => return (t.find? fun e => e.1 = key).map (·.1)
  | some _ =>
    let candidates := t.keys.filter fun k => k = key || (number.isSome && k.slotNumber? = number)
    firstSame candidates
where
  /-- The first of some keys that is the same. -/
  firstSame : List Value → Work (Option Value)
    | [] => pure none
    | k :: rest => do if ← isSame k key then return some k else firstSame rest

/-- The entry under a key, which has to be one that can be an element. -/
def valueUnder? (t : Entries) (key : Value) : Work (Option Value) := do
  let found ← keyAmong? t key
  let s ← store
  match found, s.instance? key with
  | none, some _ => return none
  | found, _ => return s.valueAt? t (found.getD key)

/-- Writes an entry of a dictionary. -/
def setEntry (dict : Nat) (key value : Value) : Work Unit := do
  let s ← store
  let key := (← keyAmong? (s.dict dict) key).getD key
  modifyStore fun s => s.updateDict dict fun t => s.setIn t key value

/-- An entry or an item of a value. -/
def itemOf (v key : Value) : Work Value := do
  let s ← store
  let entry (t : Entries) : Work Value := do
    match ← valueUnder? t key with
    | some w => return w
    | none => fail (.lacksKey key.keyText)
  let item (items : Array Value) : Work Value := do
    return items.getD (← look fun s => s.placeOf items.size key) .null
  match v with
  | .dict i => entry (s.dict i)
  | .view i => entry (s.view i)
  | .list i => item (s.lists.getD i #[])
  | .tuple _ | .str _ => item ((s.elements? v).getD []).toArray
  | v =>
    match ← special? v "__getitem__" with
    | some m => callSpecial m [key]
    | none => failFor v .notIndexable

/-- Writes an entry of a dictionary or an item of a list, or has a value do what it does for that. -/
def setItem (v key value : Value) : Work Unit := do
  match v with
  | .dict i => setEntry i key value
  | .list i =>
    let j ← look fun s => s.placeOf (s.lists.getD i #[]).size key
    modifyStore fun s => s.updateList i fun items => items.setIfInBounds j value
  | v =>
    match ← special? v "__setitem__" with
    | some m =>
      let _ ← callSpecial m [key, value]
      return ()
    | none => failFor v .notIndexable

/-- The entry of a mapping under a key, or what its method for that gives; null if there is none. -/
def getEntry (v key : Value) : Work Value := do
  match ← query (·.mapping? v) with
  | some t => return (← valueUnder? t key).getD .null
  | none => callMethod v "get" [key]

/-! ### Changes -/

/-- Stores an attribute on an object: as its class says, or as what the class offers there says. What an error was
constructed with becomes a tuple. -/
def setAttribute (v : Value) (name : String) (value : Value) : Work Unit := do
  let written ← match v with
    | .type _ => pure none
    | v => accessor? v name "__set__"
  match ← special? v "__setattr__", written, v, name with
  | some m, _, _, _ =>
    let _ ← callSpecial m [.str name, value]
    return ()
  | none, some m, _, _ =>
    let _ ← callSpecial m [v, value]
    return ()
  | none, none, .fault i, "args" =>
    let args ← newTuple (← elements value)
    perhaps fun s => do return ((), ← s.setAttr (.fault i) name args)
  | none, none, _, _ => perhaps fun s => do return ((), ← s.setAttr v name value)

/-- Appends to a list, or has a value do what it does for that. -/
def append (v value : Value) : Work Unit := do
  match v with
  | .list i => modifyStore fun s => s.updateList i fun items => items.push value
  | v =>
    let _ ← callMethod v "append" [value]
    return ()

/-! ### Names -/

/-- Whether a value can be awaited. -/
def isAwaitable (v : Value) : Work Bool := do
  let s ← store
  match s.instance? v with
  | some x => return (s.typeAttr? x.type "__await__").any (· ≠ .null)
  | none => return v.isAwaitable

/-- The function that a partial application wraps. -/
def wrapped (s : Store) : Value → Value
  | .function i =>
    match s.function i with
    | .fixed target .. => target
    | _ => .function i
  | v => v

/-- The name by which a callable is described: its own if it has a true one, else that of its class. A partial
application is described by the function inside. -/
def describe (v : Value) : Work Value := do
  let inner := wrapped (← store) v
  let name ← attrOrNull inner "__qualname__"
  if ← truth name then return name else return .str ((← store).typeName inner)

end Treeworks.Work
