import Treeworks.Log.Journal
import Treeworks.Callable

/-! Evaluation of expressions, and paths into values. -/
namespace Treeworks.Work

/-- The manual future of an id, created and registered on first mention. -/
def manualFuture (id : String) : Work Nat := do
  match ← inspect (·.manual.get? id) with
  | some i => return i
  | none =>
    let i ← makeInLoop Loop.newFuture
    modify fun m => { m with manual := m.manual.set id i }
    register id (.future i)
    return i

/-- The value of a name: a local, else a registered value. -/
def lookup (locals : Table Value) (name : String) : Work Value := do
  match locals.get? name with
  | some v => return v
  | none =>
    match ← inspect (·.environment.get? name) with
    | some v => return v
    | none => fail (.lacksKey name)

mutual
/-- The value of an expression. -/
def evaluate (locals : Table Value) : Expr → Work Value
  | .null => pure .null
  | .bool b => pure (.bool b)
  | .int n => pure (.int n)
  | .float x => pure (.float x)
  | .str t => pure (.str t)
  | .list items => do newList (← evaluateAll locals items)
  | .dict fields => do newDict (← evaluateFields locals fields)
  | .ref id => lookup locals id
  | .function (.mk name signature kind asynchronous quiet leading id body) => do
    let f ← newFunction (.script name signature kind asynchronous quiet body)
    let f ← match leading with
      | some args => do
        let args ← evaluateAll locals args
        make fun s => s.fix f args
      | none => pure f
    match id with
    | some id => register id f
    | none => pure ()
    return f
  | .callback name acts => newFunction (.callback name acts)
  | .record fields => do
    let entries ← evaluateFields locals fields
    make fun s => s.addRecord (.ofTable entries)
  | .view fields => do
    let entries ← evaluateFields locals fields
    make fun s => s.addView (.ofTable entries)
  | .point line column => do
    let line ← evaluate locals line
    let column ← evaluate locals column
    make fun s => s.addPoint ⟨line, column⟩
  | .set items => do
    let values ← evaluateAll locals items
    let elements ← elementsOf values
    make fun s => s.addSet elements
  | .tuple items => do newTuple (← evaluateAll locals items)
  | .future id => do return .future (← manualFuture id)
  | .coroutine acts => newCoroutine (.acts locals acts .null)
  | .awaitable acts => do
    match ← newCoroutine (.acts locals acts .null) with
    | .coroutine i => return .awaitable i
    | v => return v

/-- The values of expressions, from left to right. -/
def evaluateAll (locals : Table Value) : List Expr → Work (List Value)
  | [] => pure []
  | e :: rest => do
    let v ← evaluate locals e
    let vs ← evaluateAll locals rest
    return v :: vs

/-- The values of fields, in order. -/
def evaluateFields (locals : Table Value) : List (String × Expr) → Work (Table Value)
  | [] => pure []
  | (name, e) :: rest => do
    let v ← evaluate locals e
    let vs ← evaluateFields locals rest
    return (name, v) :: vs
end

/-- The value of a step of a path that stands in place of an entry's key. -/
def keyValue : Key → Work Value
  | .scalar v => pure v
  | .compound type => fail (.notHashable type)

/-- The name of the attribute that a step of a path stands for. -/
def attributeName (v : Value) : Key → Work String
  | .scalar (.str name) => pure name
  | _ => failFor v .notIndexable

/-- The value one step below another: an entry, an item, or an attribute. -/
def below (v : Value) (key : Key) : Work Value := do
  match v with
  | .dict _ | .list _ => itemOf v (← keyValue key)
  | v => attr v (← attributeName v key)

/-- The value at the end of a path. -/
def walk (v : Value) : Path → Work Value
  | [] => pure v
  | key :: rest => do walk (← below v key) rest

/-- Assigns below a value: an entry, an item, or an attribute. -/
def assign (v : Value) (key : Key) (value : Value) : Work Unit := do
  match v with
  | .dict _ | .list _ => setItem v (← keyValue key) value
  | v => setAttribute v (← attributeName v key) value

/-- Assigns at the end of a path that has at least one step. -/
def assignAt (v : Value) (path : Path) (value : Value) : Work Unit := do
  match path.getLast? with
  | some key => assign (← walk v path.dropLast) key value
  | none => fail .outOfRange

/-- Appends to a list, or adds to a set. -/
def extend (v value : Value) : Work Unit := do
  match v with
  | .set i =>
    let elements ← withElement (← query (·.set i)) value
    modifyStore fun s => { s with sets := s.sets.modify i fun _ => elements }
  | v => append v value

/-- One more than a number. -/
def increased : Value → Option Value
  | .bool b => some (.int (if b then 2 else 1))
  | .int n => some (.int (n + 1))
  | .float x => some (.float (x + 1))
  | _ => none

/-- Counts up the entry of a mapping, from zero. -/
def increment (v : Value) (key : Key) : Work Unit := do
  let key ← keyValue key
  let old ← match ← query (·.mapping? v) with
    | some entries => do pure ((← valueUnder? entries key).getD (.int 0))
    | none => callMethod v "get" [key, .int 0]
  match increased old, ← special? old "__add__" with
  | some n, _ => setItem v key n
  | none, some m => do setItem v key (← callSpecial m [.int 1])
  | none, none => failFor old .notCounted

end Treeworks.Work
