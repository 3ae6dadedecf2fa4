import Treeworks.Observation
import Treeworks.Text.Blank

/-! Entries of the log stream: how many lines one takes on a console, and the data that one holds as
a line of data. -/
namespace Treeworks

/-- The name of an error's class with that of its module. -/
def Fault.fullName (f : Fault) : String :=
  match f.detail with
  | .plain .frozen => "dataclasses.FrozenInstanceError"
  | .plain .cancelled => "asyncio.exceptions.CancelledError"
  | .plain .invalidState => "asyncio.exceptions.InvalidStateError"
  | .plain .validation => "pydantic_core._pydantic_core.ValidationError"
  | .plain .settings => "pydantic_settings.exceptions.SettingsError"
  | .plain _ => f.kindName
  | .engine _ => "unified.core.errors." ++ f.kindName
  | .diagnostic _ => "unified.core.vfile." ++ f.kindName

namespace Work

/-- Whether a text is quoted where it stands for the value of a field. -/
def isQuoted (t : String) : Bool := t.toList.any [' ', '\t', '=', '\r', '\n', '"', '\''].contains

/-- The text of a field's value on a console. -/
def consoleText (v : Value) : Work String := do
  match v with
  | .str t => return if isQuoted t then Text.quoted t else t
  | v => written v

/-- The text below an entry that a field adds, if there is one. -/
def appended (fields : Table Value) (name : String) : Work (Option String) := do
  match fields.get? name with
  | none | some .null => return none
  | some (.str t) => return some t
  | some v => failFor v (.notText name)

/-- An entry as it is written on a console: its event, logger and fields in a row, then the stack and the
exception, with a rule and two empty lines between them. -/
def consoleEntry (event logger : String) (fields : Table Value) : Work String := do
  let inner := fields.filter fun e => e.1 ≠ "stack" && e.1 ≠ "exception"
  let texts ← each (fun e => do return e.1 ++ "=" ++ (← consoleText e.2)) inner
  let head := " ".intercalate (event :: logger :: texts) ++ " "
  match ← appended fields "stack", ← appended fields "exception" with
  | some stack, some exception => return head ++ "\n" ++ stack ++ "\n\n=\n\n" ++ exception
  | stack, exception => return head ++ ((stack.or exception).map ("\n" ++ ·)).getD ""

/-- An error as it is reported where it ends a program: class and text. An error without a text has its class
alone, and one whose text cannot be had is told of. -/
def reportLine (fault : Nat) : Work String := do
  let text ← match ← attempt (printed (.fault fault)) with
    | .ok text => pure text
    | .error _ => pure "<exception str() failed>"
  return ((← store).fault fault).fullName ++ if text = "" then "" else ": " ++ text

/-- An error as it is reported, after the error that it was raised from or that was being handled meanwhile. No
error is reported twice; the fuel bounds their number. -/
def errorReport (fault : Nat) (known : List Nat) : Nat → Work String
  | 0 => reportLine fault
  | fuel + 1 => do
    let f ← query (·.fault fault)
    let isNew : Value → Bool
      | .fault i => !(known.contains i || i = fault)
      | _ => false
    let earlier (v : Value) (said : String) : Work String := do
      match v with
      | .fault i => return (← errorReport i (fault :: known) fuel) ++ "\n\n" ++ said ++ "\n\n"
      | _ => return ""
    let before ← if isNew f.chained then
        earlier f.chained "The above exception was the direct cause of the following exception:"
      else if isNew f.context && !f.quieted then
        earlier f.context "During handling of the above exception, another exception occurred:"
      else pure ""
    return before ++ (← reportLine fault)

/-- The data of a value on a line; what is no data is written down as text. `around` are the
containers that the value is in. -/
def lineDatum : Nat → List Value → Value → Work Datum
  | 0, _, _ => fail .tooDeep
  | fuel + 1, around, v => do
    if around.contains v then fail .circular
    let s ← store
    let inside := lineDatum fuel (v :: around)
    match v with
    | .null => return .null
    | .bool b => return .bool b
    | .int n => return .int n
    | .float x => return .float x
    | .str t => return .str t
    | .category c => return .str c.name
    | .spanId n => return .str (← spanName n)
    | .list i => return .arr (← each inside (s.list i))
    | .tuple i => return .arr (← each inside (s.tuple i))
    | .dict i =>
      return .obj (← each (fun e => do
        if e.1.isScalar then return (e.1.keyText, ← inside e.2) else failFor e.1 (.notText "keys")) (s.dict i))
    | v =>
      match ← orNone [.attribute] (callMethod v "__structlog__" []) with
      | some w => inside w
      | none => return .str (← written v)

/-- The fields of an entry as data: span ids are named first, and durations are not shown. -/
def fieldData (f : Value → Work Datum) (fields : Table Value) : Work (List (String × Datum)) := do
  let _ ← each (fun name =>
    match fields.get? name with
    | some v => f v
    | none => pure .null) ["span_id", "parent_span_id"]
  each (fun e => do
    if e.1 = "duration_ms" then return (e.1, .null) else return (e.1, ← f e.2)) fields

/-- The fields of an entry on a line of data. -/
def lineData (fields : Table Value) : Work (List (String × Datum)) := fieldData (lineDatum seenDepth []) fields

end Work
end Treeworks
