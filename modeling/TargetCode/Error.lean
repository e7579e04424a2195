import TargetCode.Backend

/-!
Everything that can go wrong, as causes; their wording is in `message`.
-/

namespace TargetCode

inductive StreamError where
  /-- The count of suppressed regions, `depth`, cannot grow further. -/
  | depthOverflow (depth : Nat)
  /-- Two byte offsets that do not cut a part out of a text of `length`
  bytes. -/
  | invalidRange (start stop length : Nat)
  | device (cause : String)
  deriving DecidableEq, Repr

inductive Error where
  | duplicateOperation (name : String)
  | noForms (name : String)
  | noArities (name : String)
  | duplicateMethod (owner name : String) (arity : Nat)
  | unknownOperation (name : String)
  | unknownBackend (operation : String) (backend : Backend)
  | arityNotRegistered (operation : String) (arity : Nat)
  | malformedLiteral (text : String)
  | notAllowed (name : String)
  | noOverload (owner name : String) (arity : Nat)
  | unknownGlobal (name : String)
  | noStreamingForm (name : String)
  | notTextual (backend : Backend)
  | stream (error : StreamError)
  deriving DecidableEq, Repr

/-- How far the damage of an error reaches. -/
inductive Tier where
  | assembly
  | callSite
  | protocol
  deriving DecidableEq, Repr

def StreamError.message : StreamError → String
  | .depthOverflow depth => "Log-only suppression depth overflowed at " ++ Decimal.natural depth
  | .invalidRange start stop length =>
    "Range " ++ Decimal.natural start ++ ".." ++ Decimal.natural stop ++ " is not valid for a " ++
      Decimal.natural length ++ "-byte string"
  | .device cause => "Output sink failed: " ++ cause

namespace Error

def message : Error → String
  | .duplicateOperation name => "Duplicate operation: " ++ name
  | .noForms name => "Operation " ++ name ++ " has an empty realization table"
  | .noArities name => "Operation " ++ name ++ " accepts no arities"
  | .duplicateMethod owner name arity =>
    "Duplicate method registration: " ++ owner ++ "." ++ name ++ "/" ++ Decimal.natural arity
  | .unknownOperation name => "Unknown operation: " ++ name
  | .unknownBackend operation backend =>
    "Unknown backend requested for operation " ++ operation ++ ": " ++ backend.name
  | .arityNotRegistered operation arity =>
    "Arity " ++ Decimal.natural arity ++ " not registered for operation " ++ operation
  | .malformedLiteral text => "Malformed literal argument: `" ++ text ++ "`"
  | .notAllowed name => "Unrecognized allow-list entry: `" ++ name ++ "`"
  | .noOverload owner name arity =>
    "No overload of " ++ owner ++ "." ++ name ++ " takes " ++ Decimal.natural arity ++ " arguments"
  | .unknownGlobal name => "Unknown global: " ++ name
  | .noStreamingForm name => "Operation " ++ name ++ " has no streaming form"
  | .notTextual backend => "Backend " ++ backend.name ++ " does not render text"
  | .stream error => error.message

def tier : Error → Tier
  | .duplicateOperation _ | .noForms _ | .noArities _ | .duplicateMethod _ _ _ => .assembly
  | .stream _ => .protocol
  | .unknownOperation _ | .unknownBackend _ _ | .arityNotRegistered _ _ | .malformedLiteral _
  | .notAllowed _ | .noOverload _ _ _ | .unknownGlobal _ | .noStreamingForm _ | .notTextual _ =>
    .callSite

end Error

end TargetCode
