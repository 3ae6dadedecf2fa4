import Treeworks.Conduct

/-! Callables: their parameters, and the steps that are made of them. -/
namespace Treeworks

namespace Store

/-- A parameter list that takes any arguments by position. -/
def anyArguments : Signature := .ofTokens ["*args"]

/-- The parameters of the library's own functions. -/
def hookSignature : Hook → Signature
  | .bail | .finish .. => .ofTokens ["error=", "*rest"]
  | .parseStage | .compileStage => .ofTokens ["ctx"]
  | .runStage => .ofTokens ["ctx", "next_"]

/-- The parameters that the methods of a role take, without their own object. -/
def roleSignature : Role → Signature
  | .plain => []
  | .worker .. => .ofTokens ["file", "settings", "processor"]
  | .family => .ofTokens ["processor="]

/-- The callable that another one says it wraps, which may say that of a further one; none if there is no end to
it. -/
def innermost? (s : Store) : Nat → Value → Option Value
  | 0, _ => none
  | fuel + 1, v =>
    match s.attr? v "__signature__", s.attr? v "__wrapped__" with
    | none, some w => innermost? s fuel w
    | _, _ => some v

/-- What the class of a callable has to say about making instances: whatever comes first along its ancestry that
makes or prepares one. -/
def maker? (s : Store) (type : Nat) : Option (Value ⊕ Role) :=
  (s.type type).ancestry.findSome? fun j =>
    let t := s.type j
    match t.attrs.get? "__new__", t.attrs.get? "__init__" with
    | some v, _ => some (.inl v)
    | none, some v => some (.inl v)
    | none, none => if t.role.methods.isEmpty then none else some (.inr t.role)

/-- The names of the arguments that a dictionary fixes by keyword. -/
def keywordNames (s : Store) (keywords : Value) : List String :=
  (((s.mapping? keywords).getD []).map (·.1)).map Value.keyText

/-- The parameters of a callable; none if they cannot be read. The fuel bounds the nesting of callables. -/
def signatureAt? (s : Store) : Nat → Value → Option Signature
  | 0, _ => none
  | fuel + 1, v =>
    match s.innermost? (s.functions.size + 1) v with
    | none => none
    | some v =>
      let method (f : Value) : Option Signature := (signatureAt? s fuel f).bind (·.afterFirst)
      if (s.attr? v "__signature__").any (· ≠ .null) then none
      else
        match v with
        | .function i =>
          match s.function i with
          | .script _ _ .unreadable _ _ _ => none
          | .script _ signature _ _ _ _ => some signature
          | .callback .. => some anyArguments
          | .fixed target leading keywords =>
            (signatureAt? s fuel target).bind
              (·.afterFixed ((s.elements? leading).getD []).length (s.keywordNames keywords))
          | .bound _ (.value f [_]) => method f
          | .bound .. => none
        | .type i =>
          match s.maker? i with
          | some (.inl f) => method f
          | some (.inr role) => some (roleSignature role)
          | none => some []
        | .hook h => some (hookSignature h)
        | .next _ => some anyArguments
        | v => ((s.instance? v).bind fun x => s.typeAttr? x.type "__call__").bind method

/-- The parameters of a callable; none if they cannot be read. -/
def signature? (s : Store) (v : Value) : Option Signature := s.signatureAt? (s.functions.size + 2) v

/-- A callable with leading arguments fixed. Fixing adds up, unless something was stored on the function in which
the first ones are fixed. -/
def fix (s : Store) (callee : Value) (leading : List Value) : Value × Store :=
  let add (target : Value) (leading : List Value) (keywords : Entries) : Value × Store :=
    let (leading, s) := s.addTuple leading
    let (keywords, s) := s.addDict keywords
    s.addFunction (.fixed target leading keywords)
  match callee with
  | .function j =>
    match s.function j, (s.functionAttrs.getD j []).isEmpty with
    | .fixed target first keywords, true =>
      add target ((s.elements? first).getD [] ++ leading) ((s.mapping? keywords).getD [])
    | _, _ => add callee leading []
  | _ => add callee leading []

end Store

namespace Work

/-- The step of a callable. A step that takes any number of arguments has no counts. -/
def stepOf (callee : Value) : Work Step := do
  let signature ← query (·.signature? callee)
  let name ← describe callee
  match signature with
  | none => return ⟨callee, name, none, none, false, []⟩
  | some signature =>
    let takesContext := signature.hasKeyword "processor"
    if signature.hasRest then return ⟨callee, name, none, none, takesContext, []⟩
    else return ⟨callee, name, some signature.required, some signature.accepted, takesContext, []⟩

/-- Registers a callable behind the other steps of a ware, its leading arguments fixed. -/
def useStep (ware : Nat) (callee : Value) (leading : List Value) : Work Unit := do
  if !(← isCallable callee) then failFor callee .notStep
  let step ← if leading.isEmpty then stepOf callee else do
    let step ← stepOf (← make fun s => s.fix callee leading)
    pure { step with name := ← describe callee }
  append (← attr (.ware ware) "fns") (← make fun s => s.addStep step)

end Work
end Treeworks
