import Treeworks.Conduct

/-! The context of an engine error: an object with fields for processor, stage and path and with a
bag of everything else; what can be added to it, and the mapping that it gives. -/
namespace Treeworks

namespace Store

/-- A new context with the given attributes. -/
def addContext (s : Store) (attrs : Table Value) : Value × Store :=
  let i := s.dicts.size
  (.context s.contexts.size,
    { s with dicts := s.dicts.push (.ofTable attrs), contexts := s.contexts.push i })

/-- A new context for a processor and a path, with an empty bag. -/
def contextFor (s : Store) (processor filePath : Value) : Value × Store :=
  let (bag, s) := s.addDict []
  s.addContext [("processor", processor), ("stage", .null), ("file_path", filePath), ("metadata", bag)]

end Store

namespace Work

/-- Adds one entry to a context: in place of an attribute that it has, or else to its bag. -/
def addToContext (context : Value) (name : String) (value : Value) : Work Unit := do
  let inPlace ← if name = "metadata" then pure false else hasAttribute context name
  if inPlace then setAttribute context name value
  else setItem (← attr context "metadata") (.str name) value

/-- Adds entries to the context of an engine error, one after the other; those before one that fails
stay. -/
def withContext (fault : Value) : Table Value → Work Unit
  | [] => return ()
  | (name, value) :: rest => do
    addToContext (← attr fault "context") name value
    withContext fault rest

/-- The two parts of a pair, the first of which can be a key. -/
def pairOf (v : Value) : Work (Value × Value) := do
  match ← elements v with
  | [a, b] => return (a, b)
  | vs => fail (.notPair vs.length)

/-- Writes the entries that a value stands for into a dictionary: those of a mapping, or of anything that has
keys, else the pairs of a collection. -/
def updateFrom (dict : Nat) (v : Value) : Work Unit := do
  match ← query (·.mapping? v) with
  | some t => modifyStore fun s => s.updateDict dict fun u => t.foldl (fun u e => s.setIn u e.1 e.2) u
  | none =>
    match ← attr? v "keys" with
    | some _ =>
      let keys ← elements (← callMethod v "keys" [])
      let _ ← each (fun key => do setEntry dict key (← itemOf v key)) keys
      return ()
    | none =>
      let _ ← each (fun pair => do
        let (key, value) ← pairOf pair
        setEntry dict key value) (← elements v)
      return ()

/-- The mapping of a context: the fields that are present, then its bag. -/
def contextMapping (context : Value) : Work Value := do
  let parts ← each (fun name => do return (Value.str name, ← attr context name)) ["processor", "stage", "file_path"]
  let bag ← attr context "metadata"
  match ← make fun s => s.addDict (parts.filter fun e => e.2 ≠ .null) with
  | .dict i =>
    if ← truth bag then updateFrom i bag
    return .dict i
  | v => return v

/-- The mapping that something in the place of a context gives. -/
def contextDict (context : Value) : Work Value := do
  match context with
  | .context _ => overridden context "to_dict" [] (contextMapping context)
  | v => callMethod v "to_dict" []

end Work
end Treeworks
