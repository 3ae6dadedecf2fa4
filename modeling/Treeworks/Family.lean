import Treeworks.Construction

/-! Making families of processors, and the parser and compiler classes that scripts define. -/
namespace Treeworks.Work

/-- Raises the error of a family that cannot be made, because of one of its options. -/
def failConfiguration {α : Type} (message option : String) : Work α := do
  let context ← make fun s => s.contextFor .null .null
  raiseEngine .config message context (.str option)

/-- Fails for a parser or compiler that is no class. -/
def requireClass (option : String) (v : Value) : Work Nat := do
  match v with
  | .type i => return i
  | v => failConfiguration ("Expected a class for " ++ option ++ ", got " ++ (← store).typeName v) option

/-- The name of the class of a family. -/
def familyName (name : String) : String :=
  String.ofList ((Text.title name).toList.filter fun c => c ≠ '-' && c ≠ '_') ++ "Processor"

/-- A family of processors under a name, with a parser class, a compiler class, and data of its own. -/
def newFamily (name parser compiler data : Value) : Work Nat := do
  match name with
  | .str t =>
    if t = "" then failConfiguration "Processor name must be a non-empty string" "name"
    else
      let i ← requireClass "parser" parser
      let j ← requireClass "compiler" compiler
      let doc := "Processor family " ++ Text.quoted t ++ "."
      let attrs : Table Value := [("name", name), ("Parser", parser), ("Compiler", compiler), ("data", data)]
      let family ← perhaps fun s => s.newType (familyName t) (.str "unified.processor") (.str doc) [0] attrs .plain
      introduce family
      let s ← store
      log "unified.processor" .debug "processor.family"
        [("processor", name), ("parser", .str (s.type i).name), ("compiler", .str (s.type j).name)]
      return family
  | _ => failConfiguration "Processor name must be a non-empty string" "name"

/-- Defines a parser or compiler class; it has a table of rules or tags in any case. -/
def newWorkerType (parses : Bool) (spec : WorkerSpec) : Work Unit := do
  let attrs ← evaluateFields [] spec.attrs
  let table := if parses then "rules" else "tags"
  let attrs : Table Value ← if Table.has attrs table then pure attrs else do
    pure (Table.set attrs table (← newDict []))
  let i ← perhaps fun s => s.newType spec.name (.str "__main__") .null [] attrs (.worker parses spec)
  nameParts i
  register spec.id (.type i)

end Treeworks.Work
