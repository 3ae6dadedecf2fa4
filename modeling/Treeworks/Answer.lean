import Treeworks.Script.Performance

/-! Answers to scripts. -/
namespace Treeworks

/-- What the base class of all families says of itself. -/
def familyGuide : String := "\n".intercalate [
  "",
  "    Base class of every processor family.",
  "",
  "    Families are created with ``unified()``; the base class itself has no",
  "    Parser or Compiler and cannot process anything.",
  "",
  "    Class attributes (set per family):",
  "        name: Namespace key under which trees are parked on carrier files",
  "        Parser: Class built as ``Parser(file, settings, processor)``",
  "            exposing ``parse()`` (awaitable or plain)",
  "        Compiler: Class built as ``Compiler(file, settings, processor)``",
  "            exposing ``compile()``",
  "        data: Default metadata, deep-copied into each instance",
  "",
  "    Instance attributes:",
  "        ware: The transformer registry, bound to this instance",
  "        Parser / Compiler: This instance's private subclasses",
  "        data: This instance's copy of the family data (or None)",
  "    "]

/-- What the attributes of the base class of all families are meant to hold. -/
def familyAnnotations : Entries :=
  [(.str "name", .str "ClassVar[str]"), (.str "Parser", .str "type | None"),
    (.str "Compiler", .str "type | None"), (.str "data", .str "Any")]

/-- The base class of all families; it cannot process anything itself. Its annotations are the first
dictionary. -/
def baseFamily : TypeDef where
  name := "Processor"
  qualname := "Processor"
  module := .str "unified.processor"
  doc := .str familyGuide
  bases := []
  ancestry := [0]
  attrs := [("name", .str ""), ("Parser", .null), ("Compiler", .null), ("data", .null),
    ("__annotations__", .dict 0)]
  role := .family
  extras := Store.extraSlots
  layout := none
  fixed := []

/-- The store before any script: the empty tuple, the base class with its annotations, and the ware of passages
with its list of steps. -/
def Store.initial : Store :=
  { lists := #[#[.step 0, .step 1, .step 2]], dicts := #[familyAnnotations], tuples := #[[]], sets := #[], records := #[], views := #[], points := #[]
    faults := #[], contexts := #[], files := #[], functions := #[], functionAttrs := #[]
    types := #[baseFamily], workers := #[], processors := #[], passages := #[], spans := #[], tokens := #[]
    runner := ⟨#[.new .null (.list 0) none], passageSteps, #[], #[], []⟩ }

/-- The machine that a script starts on. -/
def Machine.initial (inLoop : Bool) : Machine :=
  { store := .initial, loop := .empty, coroutines := #[], cells := #[⟨0, .empty⟩], cell := 0, stamps := 0
    logging := .initial, settings := none, vars := [], environment := [("Processor", .type 0)], manual := []
    inLoop := inLoop, handling := [], events := [], logs := [], lines := [], spanIds := 0, spanNames := [], measured := [] }

/-- The answer to a script that cannot be read. -/
def badInput (message : String) : Datum := .obj [("error", .str "BadInput"), ("message", .str message)]

/-- The answer to a script. -/
def Script.answer (script : Script) : Datum :=
  match Work.runScript script (service nesting) (Machine.initial script.loop) with
  | (.done d, _) => d
  | (.raised _, _) => badInput "the script did not end as it should"
  | (.spent, _) => badInput "the script does not end"

/-- The answer to a script written as data. -/
def answer (d : Datum) : Datum :=
  match Reader.ofDatum d with
  | .ok script => script.answer
  | .error message => badInput message

end Treeworks
