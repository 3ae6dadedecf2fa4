import Treeworks.Value
import Treeworks.Table

/-! The logging context: the fields that every log entry takes over. -/
namespace Treeworks

/-- The fields of a logging context; an absent one is null. -/
structure LogContext where
  processor : Value
  stage : Value
  filePath : Value
  spanId : Value
  parentSpanId : Value
  deriving DecidableEq, Inhabited

namespace LogContext

/-- The context without fields. -/
def empty : LogContext := ⟨.null, .null, .null, .null, .null⟩

/-- The names of the fields. -/
def fieldNames : List String := ["processor", "stage", "file_path", "span_id", "parent_span_id"]

/-- Writes a field; a name that is none is skipped. -/
def setField (c : LogContext) (name : String) (value : Value) : LogContext :=
  if name = "processor" then { c with processor := value }
  else if name = "stage" then { c with stage := value }
  else if name = "file_path" then { c with filePath := value }
  else if name = "span_id" then { c with spanId := value }
  else if name = "parent_span_id" then { c with parentSpanId := value }
  else c

/-- The fields that are present, in order. -/
def entries (c : LogContext) : Table Value :=
  [("processor", c.processor), ("stage", c.stage), ("file_path", c.filePath),
    ("span_id", c.spanId), ("parent_span_id", c.parentSpanId)].filter fun e => e.2 ≠ .null

/-- Overrides fields; unknown names and null values are skipped. -/
def merge (c : LogContext) (values : Table Value) : LogContext :=
  values.foldl (fun c e => if e.2 = .null then c else c.setField e.1 e.2) c

/-- The context of exactly the given fields; none if a name is no field. -/
def ofValues? (values : Table Value) : Option LogContext :=
  if values.all fun e => fieldNames.contains e.1 then
    some (values.foldl (fun c e => c.setField e.1 e.2) empty)
  else none

end LogContext
end Treeworks
