import TargetCode.Error

/-!
What is reported to a log while operations are registered, calls are
realized and output is written.
-/

namespace TargetCode

inductive Event where
  | registered (operation : String) (arities : List Nat) (backends : List Backend)
  | rejected (operation : String) (error : Error)
  | realizing (operation : String) (backend : Backend) (arity : Nat)
  | realized (operation method : String) (arity : Nat)
  | openingStream (operation : String)
  | loggingCall (function : String)
  | regionEntered (id : Nat) (logOnly : Bool)
  | regionExited
  | suppressionEntered (id depth : Nat)
  | suppressionExited (depth : Nat)
  deriving DecidableEq, Repr

inductive Severity where
  | trace
  | debug
  | warn
  deriving DecidableEq, Repr

/-- A list between brackets, its elements divided by commas. -/
def bracketed (opening closing : String) (elements : List String) : String :=
  opening ++ ", ".intercalate elements ++ closing

/-- A set of argument counts as it is shown in listings. -/
def arityListing (arities : List Nat) : String :=
  bracketed "\x7b" "\x7d" (arities.map Decimal.natural)

def backendListing (backends : List Backend) : String :=
  bracketed "[" "]" (backends.map Backend.title)

def truth (b : Bool) : String :=
  if b then "true" else "false"

namespace Event

def severity : Event → Severity
  | .rejected _ _ => .warn
  | .suppressionEntered _ _ | .suppressionExited _ => .trace
  | .registered _ _ _ | .realizing _ _ _ | .realized _ _ _ | .openingStream _ | .loggingCall _
  | .regionEntered _ _ | .regionExited => .debug

def message : Event → String
  | .registered _ _ _ => "registered operation"
  | .rejected _ _ => "call rejected"
  | .realizing _ _ _ => "realizing call"
  | .realized _ _ _ => "realized call"
  | .openingStream _ => "opening streaming form"
  | .loggingCall _ => "logging function call"
  | .regionEntered _ _ => "enter region"
  | .regionExited => "exit region"
  | .suppressionEntered _ _ => "suppressed region entered"
  | .suppressionExited _ => "suppressed region exited"

def fields : Event → List (String × String)
  | .registered operation arities backends =>
    [("operation", operation), ("arities", arityListing arities),
      ("backends", backendListing backends)]
  | .rejected operation error => [("operation", operation), ("error", error.message)]
  | .realizing operation backend arity =>
    [("operation", operation), ("backend", backend.name), ("arity", Decimal.natural arity)]
  | .realized operation method arity =>
    [("operation", operation), ("backend", Backend.bytecode.name), ("method", method),
      ("arity", Decimal.natural arity)]
  | .openingStream operation => [("operation", operation)]
  | .loggingCall function => [("function", function)]
  | .regionEntered id logOnly => [("id", Decimal.natural id), ("log_only", truth logOnly)]
  | .regionExited => []
  | .suppressionEntered id depth =>
    [("id", Decimal.natural id), ("depth", Decimal.natural depth)]
  | .suppressionExited depth => [("depth", Decimal.natural depth)]

end Event

/-- A value together with the events reported on the way to it, the oldest
first. -/
structure Logged (α : Type) where
  value : α
  events : List Event

end TargetCode
