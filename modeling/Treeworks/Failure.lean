import Treeworks.Store

/-! Failures: why an operation cannot be done, with the class and the message that each has as an
error object. -/
namespace Treeworks

/-- Why an operation fails. The texts name the class of a value, an attribute, a key, a parameter,
or a function. -/
inductive Failure
  | lacksAttribute (type name : String)
  | lacksClassAttribute (type name : String)
  | lacksKey (key : String)
  | outOfRange
  | misfit (callee : String) (why : Misfit)
  | notCallable (type : String)
  | notIterable (type : String)
  | notHashable (type : String)
  | notAwaitable (type : String)
  | notCopyable (type : String)
  | notIndexable (type : String)
  | notIndex (type : String)
  | notJoinable (place : Nat) (type : String)
  | notShown (type : String)
  | notCounted (type : String)
  | notSized (type : String)
  | notRaisable
  | notError
  | notCause
  | notNothing (type : String)
  | notText (place type : String)
  | notPair (length : Nat)
  | takesNothing (callee : String)
  | notStep (type : String)
  | notFile (type : String)
  | notLinear
  | slotDefined
  | notTruth (type : String)
  | notWhole (type : String)
  | negativeLength
  | tooGreat
  | notNumber (type : String)
  | unknownLevel (name : String)
  | notBase (type : String)
  | notTask (type : String)
  | notMain (type : String)
  | guarded (name : String)
  | frozen (name : String)
  | nullInName
  | notEncodable
  | usedToken
  | foreignToken
  | changed
  | notAwaited
  | notDrawable
  | settled
  | beingAwaited
  | alreadyAwaited
  | alreadyRunning
  | unreadableSettings
  | invalidSettings
  | notVariable
  | namelessVariable
  | circular
  | tooDeep
  deriving DecidableEq, Inhabited

namespace Failure

/-- The class of the error object. -/
def kind : Failure → PlainKind
  | .lacksAttribute .. | .lacksClassAttribute .. => .attribute
  | .lacksKey _ => .key
  | .outOfRange => .index
  | .misfit .. | .notCallable _ | .notIterable _ | .notHashable _ | .notAwaitable _ | .notCopyable _
  | .notIndexable _ | .notIndex _ | .notJoinable .. | .notShown _ | .notCounted _ | .notSized _
  | .notRaisable | .notError | .notCause | .notNothing _ | .notText .. | .takesNothing _ | .notStep _ | .notFile _
  | .notLinear | .notBase _ | .notTask _ | .guarded _ | .notTruth _ | .notWhole _
  | .notNumber _ => .type
  | .frozen _ => .frozen
  | .nullInName | .foreignToken | .alreadyRunning | .notPair _ | .notMain _ | .notVariable | .circular
  | .slotDefined | .negativeLength | .unknownLevel _ => .value
  | .tooGreat => .overflow
  | .usedToken | .changed | .notAwaited | .notDrawable | .beingAwaited | .alreadyAwaited => .runtime
  | .settled => .invalidState
  | .notEncodable => .encoding
  | .namelessVariable => .system
  | .unreadableSettings => .settings
  | .invalidSettings => .validation
  | .tooDeep => .recursion

/-- The message of the error object. -/
def message : Failure → String
  | .lacksAttribute type name => "'" ++ type ++ "' object has no attribute '" ++ name ++ "'"
  | .lacksClassAttribute type name => "type object '" ++ type ++ "' has no attribute '" ++ name ++ "'"
  | .lacksKey key => key
  | .outOfRange => "list index out of range"
  | .misfit callee why => callee ++ "() " ++ why.text
  | .notCallable type => "'" ++ type ++ "' object is not callable"
  | .notIterable type => "'" ++ type ++ "' object is not iterable"
  | .notHashable type => "unhashable type: '" ++ type ++ "'"
  | .notAwaitable type => "object " ++ type ++ " can't be used in 'await' expression"
  | .notCopyable type => "cannot pickle '" ++ type ++ "' object"
  | .notIndexable type => "'" ++ type ++ "' object is not subscriptable"
  | .notIndex type => "list indices must be integers or slices, not " ++ type
  | .notJoinable place type =>
    "sequence item " ++ toString place ++ ": expected str instance, " ++ type ++ " found"
  | .notShown type => "__str__ returned non-string (type " ++ type ++ ")"
  | .notCounted type => "unsupported operand type(s) for +: '" ++ type ++ "' and 'int'"
  | .notSized type => "object of type '" ++ type ++ "' has no len()"
  | .notRaisable => "exceptions must derive from BaseException"
  | .notError => "invalid exception object"
  | .notCause => "exception cause must be None or derive from BaseException"
  | .notNothing type => "__init__() should return None, not '" ++ type ++ "'"
  | .notText place type => place ++ " must be str, not " ++ type
  | .notPair length => "dictionary update sequence element has length " ++ toString length ++ "; 2 is required"
  | .takesNothing callee => callee ++ "() takes no arguments"
  | .notStep type => "Expected a callable step, got " ++ type
  | .notFile type => "Cannot create a VFile from " ++ type
  | .slotDefined => "a slot conflicts with a class variable"
  | .notTruth type => "__bool__ should return bool, returned " ++ type
  | .notWhole type => "'" ++ type ++ "' object cannot be interpreted as an integer"
  | .negativeLength => "__len__() should return >= 0"
  | .tooGreat => "int too large to convert to float"
  | .notNumber type => "unsupported operand type(s) for -: '" ++ type ++ "' and 'float'"
  | .unknownLevel name => "Unknown level: " ++ Text.quoted name
  | .notLinear => "Cannot create a consistent method resolution order (MRO) for bases"
  | .notBase type => "bases must be types, not " ++ type
  | .notTask type | .notMain type => "a coroutine was expected, got " ++ type
  | .guarded name => name ++ " cannot be replaced"
  | .frozen name => "cannot assign to field '" ++ name ++ "'"
  | .nullInName => "type name must not contain null characters"
  | .notEncodable => "surrogates not allowed"
  | .usedToken => "the token has already been used once"
  | .foreignToken => "the token was created in a different context"
  | .changed => "changed size during iteration"
  | .notAwaited => "await was not used with future"
  | .notDrawable => "Task got bad yield"
  | .settled => "invalid state"
  | .beingAwaited => "coroutine is being awaited already"
  | .alreadyAwaited => "cannot reuse already awaited coroutine"
  | .alreadyRunning => "coroutine already executing"
  | .unreadableSettings => "the list of families is no data text"
  | .invalidSettings => "the settings do not fit"
  | .notVariable => "embedded null byte"
  | .namelessVariable => "Invalid argument"
  | .circular => "circular reference detected"
  | .tooDeep => "maximum recursion depth exceeded"

end Failure

/-- The failure of a call with more arguments than a function of the library takes. -/
def Failure.excess (callee : String) (least most given : Nat) : Failure :=
  .misfit callee (.excess least most given 0)

end Treeworks
