import Treeworks.Failure
import Treeworks.Text.Casing

/-! Log methods, levels, and the filter that lets every event of chosen families through. -/
namespace Treeworks

/-- The levels by name. -/
def levels : Table Nat :=
  [("CRITICAL", 50), ("FATAL", 50), ("ERROR", 40), ("WARN", 30), ("WARNING", 30), ("INFO", 20),
    ("DEBUG", 10), ("NOTSET", 0)]

/-- The level that a name stands for. -/
def level? (name : String) : Option Nat := levels.get? name

/-- What a logger can be asked for. -/
inductive LogMethod
  | debug | info | warning | error | critical | exception
  deriving DecidableEq, Repr, Inhabited

namespace LogMethod

/-- The name of a method. -/
def name : LogMethod → String
  | .debug => "debug"
  | .info => "info"
  | .warning => "warning"
  | .error => "error"
  | .critical => "critical"
  | .exception => "exception"

/-- The methods by the names that they can be asked for. -/
def byName : Table LogMethod :=
  [("debug", .debug), ("info", .info), ("warning", .warning), ("warn", .warning), ("error", .error),
    ("critical", .critical), ("fatal", .critical), ("exception", .exception)]

/-- The level that entries of a method show: an exception is an error. -/
def shown : LogMethod → String
  | .exception => "error"
  | m => m.name

/-- The level that the stream knows a method by. -/
def level (m : LogMethod) : Nat := (level? (Text.upper m.shown)).getD 10

end LogMethod

/-- What a logger has under a name and does with an event: it writes an entry; it begins what would write one
when awaited, and nobody does; or it does something else, which may take no fields and may fail. -/
inductive LoggerPart
  | method (method : LogMethod)
  | deferred
  | bare (failure : Option Failure)
  | misused
  deriving DecidableEq, Inhabited

namespace LoggerPart

/-- The parts that every logger has. -/
def common : Table LoggerPart :=
  LogMethod.byName.map (fun e => (e.1, .method e.2)) ++
    (LogMethod.byName.keys.map fun name => ("a" ++ name, .deferred)) ++
    [("bind", .misused), ("new", .misused), ("unbind", .bare (some (.lacksKey "event"))), ("try_unbind", .bare none),
      ("alog", .misused)]

/-- The further parts of a logger before any configuration. -/
def plain : Table LoggerPart :=
  [("msg", .method .info), ("amsg", .deferred), ("log", .misused), ("is_enabled_for", .misused),
    ("get_effective_level", .misused)]

/-- The further parts of a logger under a configuration. -/
def configured : Table LoggerPart :=
  [("log", .bare (some (.lacksKey "event"))), ("name", .misused), ("level", .misused), ("parent", .misused),
    ("propagate", .misused), ("handlers", .misused), ("disabled", .misused), ("isEnabledFor", .misused),
    ("hasHandlers", .misused), ("getEffectiveLevel", .misused), ("makeRecord", .misused),
    ("getChild", .bare none), ("findCaller", .bare none), ("addHandler", .bare none), ("removeHandler", .bare none),
    ("handle", .bare (some (.lacksAttribute "str" "name"))),
    ("callHandlers", .bare (some (.lacksAttribute "str" "name"))), ("setLevel", .bare (some (.unknownLevel "event")))]

/-- The part of a name. -/
def ofName? (isConfigured : Bool) (name : String) : Option LoggerPart :=
  (common ++ if isConfigured then configured else plain : Table LoggerPart).get? name

end LoggerPart

/-- A filter by family: the families that pass whole, and the threshold for the others. -/
structure FamilyFilter where
  families : Elements
  threshold : Nat
  deriving Inhabited

/-- The level of a method by its name. A name that is no level counts as debugging. -/
def methodLevel (name : String) : Nat := (level? (Text.upper name)).getD 10

end Treeworks
