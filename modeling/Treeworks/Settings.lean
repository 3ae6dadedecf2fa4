import Treeworks.Datum.Reader
import Treeworks.Text.Casing
import Treeworks.Settings.Defaults

/-! Settings of logging, read from the environment. Names are matched without regard to case, and
the environment wins over a file of defaults. -/
namespace Treeworks

/-- How much is logged, in which format, and the families that always log everything. -/
structure Settings where
  logLevel : String
  logFormat : String
  debugProcessors : List String
  deriving DecidableEq, Inhabited

/-- Why settings cannot be read: a list that is no data text or one that is nested too deeply, or fields that do
not fit, each with its place and a code. -/
inductive SettingsFault
  | unreadable
  | tooDeep
  | invalid (fields : List (String × String))
  deriving DecidableEq, Inhabited

namespace Settings

/-- The settings of an empty environment. -/
def standard : Settings := ⟨"INFO", "console", []⟩

/-- The last entry whose name matches without regard to case. -/
def lookup {α : Type} (vars : Table α) (name : String) : Option α :=
  (vars.reverse.find? fun e => Text.lower e.1 = name).map (·.2)

/-- A variable: from the environment, else from the defaults, where it may have no value. -/
def setting? (env : Table String) (defaults : Table (Option String)) (name : String) : Option String :=
  (lookup env name).or ((lookup defaults name).getD none)

/-- A word of whole characters that has to be one of a few after it was brought to one case. -/
def choice (field : String) (fold : String → String) (allowed : List String) (standard : String) :
    Option String → Except (String × String) String
  | none => .ok standard
  | some v =>
    if Text.hasHalf v then .error (field, "string_unicode")
    else if allowed.contains (fold v) then .ok (fold v)
    else .error (field, "literal_error")

/-- The items of a list of texts, with the places of those that are none. -/
def texts : Nat → List Datum → List String × List (String × String)
  | _, [] => ([], [])
  | i, d :: rest =>
    let (oks, faults) := texts (i + 1) rest
    match d with
    | .str s => (s :: oks, faults)
    | _ => (oks, ("log_debug_processors." ++ toString i, "string_type") :: faults)

/-- The nesting up to which a list of families is read. -/
def readingDepth : Nat := 975

/-- The list of families as a variable holds it: the text of a datum, where null counts as missing. -/
def decoded : Option String → Except SettingsFault (Option Datum)
  | none => .ok none
  | some v =>
    match Datum.ofText v readingDepth with
    | .error .malformed => .error .unreadable
    | .error .tooDeep => .error .tooDeep
    | .ok .null => .ok none
    | .ok d => .ok (some d)

/-- The families of a datum, which has to be a list of texts. -/
def families : Option Datum → List String × List (String × String)
  | none => ([], [])
  | some (.arr items) => texts 0 items
  | some _ => ([], [("log_debug_processors", "list_type")])

/-- The faults of a field. -/
def faultsOf {α : Type} : Except (String × String) α → List (String × String)
  | .ok _ => []
  | .error e => [e]

/-- Reads the settings. The families of both sources have to be readable, also those that do not
count. -/
def read (env : Table String) (defaults : Table (Option String)) : Except SettingsFault Settings := do
  let own ← decoded (lookup env "unified_log_debug_processors")
  let other ← decoded ((lookup defaults "unified_log_debug_processors").getD none)
  let (names, nameFaults) := families (own.or other)
  let level := choice "log_level" Text.upper ["DEBUG", "INFO", "WARNING", "ERROR"] standard.logLevel
    (setting? env defaults "unified_log_level")
  let format := choice "log_format" Text.lower ["console", "json"] standard.logFormat
    (setting? env defaults "unified_log_format")
  match level, format, nameFaults with
  | .ok level, .ok format, [] => .ok ⟨level, format, names⟩
  | level, format, _ => .error (.invalid (faultsOf level ++ faultsOf format ++ nameFaults))

end Settings
end Treeworks
