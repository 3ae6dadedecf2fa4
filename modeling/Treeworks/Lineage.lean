import Treeworks.Attribute

/-! Classes: linearised ancestries, the slots that a class can ask for, and derived classes that own copies of
every container. -/
namespace Treeworks

namespace Ancestry

/-- The first head that stands in no tail. -/
def nextHead? (sequences : List (List Nat)) : Option Nat :=
  (sequences.filterMap List.head?).find? fun head => sequences.all fun q => !q.tail.contains head

/-- Removes a head. -/
def dropHead (head : Nat) (sequences : List (List Nat)) : List (List Nat) :=
  (sequences.map fun q => if q.head? = some head then q.tail else q).filter (!·.isEmpty)

/-- Merges sequences into one that respects the order of each; none if they disagree. The fuel is
the number of entries that are left. -/
def merge : Nat → List (List Nat) → Option (List Nat)
  | _, [] => some []
  | 0, _ => none
  | fuel + 1, sequences =>
    match nextHead? sequences with
    | none => none
    | some head => (merge fuel (dropHead head sequences)).map (head :: ·)

/-- The linearisation of the ancestors above a class with the given bases. -/
def ofBases (ancestry : Nat → List Nat) (bases : List Nat) : Option (List Nat) :=
  if bases.eraseDups.length ≠ bases.length then none
  else
    let sequences := (bases.map ancestry ++ [bases]).filter (!·.isEmpty)
    merge ((sequences.map List.length).foldl (· + ·) 0) sequences

end Ancestry

namespace Store

/-- The layout of a class below some bases that adds no slots, the one among theirs that extends all others, and
the first of the bases that has it; none if there is no such. -/
def commonLayout? (s : Store) (bases : List Nat) : Option (Option Nat × Option Nat) :=
  let isAbove (a b : Option Nat) : Bool := match a, b with
    | _, none => true
    | some i, some j => s.descends i j
    | none, some _ => false
  bases.foldlM (fun best i =>
    let layout := (s.type i).layout
    if best.2.isSome && isAbove best.1 layout then some best
    else if isAbove layout best.1 then some (layout, some i) else none) (none, none)

/-- What instances can have besides their slots: a dictionary, and a place for weak references. -/
def extraSlots : List String := ["__dict__", "__weakref__"]

/-- Whether a text can name a slot: a word of letters, digits and underscores that begins with no digit. -/
def isWord (name : String) : Bool :=
  let isPart (c : Char) : Bool := c = '_' || c.isAlphanum || (0x80 ≤ c.toNat && Text.isPrintable c)
  name ≠ "" && name.toList.all isPart && !(name.toList.head?.any Char.isDigit)

/-- The name of a slot as its class keeps it: one with two leading underscores belongs to the class alone. -/
def keptName (type name : String) : String :=
  let stem := type.toList.dropWhile (· = '_')
  if name.startsWith "__" && !name.endsWith "__" && !stem.isEmpty then "_" ++ String.ofList stem ++ name
  else name

/-- The names of the slots that a class asks for, which are words or one word. -/
def askedSlots (s : Store) (asked : Value) : Except Failure (List String) := do
  let items ← match asked with
    | .str t => .ok [.str t]
    | v =>
      match s.elements? v with
      | some items => .ok items
      | none => .error (.notIterable (s.typeName v))
  items.mapM fun v =>
    match v with
    | .str t => if isWord t then .ok t else .error (.notText "a slot" "str")
    | v => .error (.notText "a slot" (s.typeName v))

/-- Those slots that a class asks for and that its attributes do not define. Each extra can be asked for once,
unless the base has it. -/
def slotNames (s : Store) (type : String) (base : Option Nat) (defined asked : List String) :
    Except Failure (List String) := do
  let had := (base.map fun i => (s.type i).extras).getD []
  if extraSlots.any fun name => 1 < asked.count name || (asked.contains name && had.contains name) then
    throw (.guarded "__slots__")
  let kept := (asked.filter (!extraSlots.contains ·)).map (keptName type)
  if kept.any fun name => name ≠ "__qualname__" && defined.contains name then throw .slotDefined
  return kept

/-- The qualified name of a class, which has to be a text where it is given. -/
def qualifiedName (s : Store) (name : String) (attrs : Table Value) : Except Failure String :=
  match attrs.get? "__qualname__" with
  | none => .ok name
  | some (.str t) => .ok t
  | some v => .error (.notText "__qualname__" (s.typeName v))

/-- The methods that need no instance even if they are plain functions. -/
def fixedMethods : List String := ["__new__", "__init_subclass__", "__class_getitem__"]

/-- A new class below the given bases. A class that says when its instances are equal but not how they are
numbered has instances that cannot be elements. -/
def newType (s : Store) (name : String) (module doc : Value) (bases : List Nat) (attrs : Table Value)
    (role : Role) : Except Failure (Nat × Store) := do
  let some (layout, base) := s.commonLayout? bases | throw .notLinear
  let i := s.types.size
  let defined := ["__module__"] ++ (if doc = .null then [] else ["__doc__"]) ++ attrs.keys
  let asked ← (attrs.get? "__slots__").mapM s.askedSlots
  let slots ← s.slotNames name base defined (asked.getD [])
  checkTypeName name
  let qualname ← s.qualifiedName name attrs
  if attrs.has "__classcell__" then throw (.guarded "__classcell__")
  let some above := Ancestry.ofBases (fun i => (s.type i).ancestry) bases | throw .notLinear
  let doc := if doc = .null then (attrs.get? "__doc__").getD .null else doc
  let own : Table Value := attrs.filter fun e => e.1 ≠ "__qualname__"
  let own := slots.foldl (fun t name => t.set name (.slot i name)) own
  let own := if own.has "__eq__" && !own.has "__hash__" then own.set "__hash__" .null else own
  let fixed := fixedMethods.filter fun name => (own.get? name).any s.isPlainFunction
  let extras := extraSlots.filter fun name =>
    (asked.getD extraSlots).contains name || bases.any fun i => (s.type i).extras.contains name
  let layout := if slots.isEmpty then layout else some i
  let made : TypeDef := ⟨name, qualname, module, doc, bases, i :: above, own, role, extras, layout, fixed⟩
  return (i, { s with types := s.types.push made })

/-- A new instance of a class, without attributes. -/
def addInstance (s : Store) (type : Nat) : Value × Store :=
  if s.descends type 0 then s.addProcessor type else s.addWorker type

/-- Names between double underscores belong to the language. -/
def isReserved (name : String) : Bool := name.startsWith "__" && name.endsWith "__"

/-- A shallow copy of a dictionary, list or set; none for other values. -/
def shallowCopy? (s : Store) (v : Value) : Option (Value × Store) :=
  match v with
  | .dict i => some (s.addDict (s.dict i))
  | .list i => some (s.addList (s.list i))
  | .set i => some (s.addSet (s.set i).copied)
  | _ => none

/-- What a class itself defines; its methods are told by null. -/
def ownNames (t : TypeDef) : Table Value := t.attrs.fill (t.role.methods.map fun name => (name, .null))

/-- The first definition of every name along an ancestry. -/
def visibleAttrs (s : Store) (ancestry : List Nat) : Table Value :=
  ancestry.foldl (fun t i => t.fill (ownNames (s.type i))) []

/-- Copies the containers among attributes; other attributes are left out. -/
def ownContainers (s : Store) : Table Value → Table Value × Store
  | [] => ([], s)
  | (name, v) :: rest =>
    if isReserved name then ownContainers s rest
    else
      match s.shallowCopy? v with
      | none => ownContainers s rest
      | some (copy, s) =>
        let (rest, s) := ownContainers s rest
        ((name, copy) :: rest, s)

/-- A class below another, with the same names and documentation, that owns a copy of every
container that the other resolves a name to. -/
def derive (s : Store) (base : Nat) (documented : Bool) : Nat × Store :=
  let b := s.type base
  let (attrs, s) := s.ownContainers (s.visibleAttrs b.ancestry)
  let i := s.types.size
  let doc := if documented then b.doc else .null
  let made : TypeDef :=
    ⟨b.name, b.qualname, b.module, doc, [base], i :: b.ancestry, attrs, .plain, extraSlots, b.layout, []⟩
  (i, { s with types := s.types.push made })

end Store
end Treeworks
