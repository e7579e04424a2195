import TargetCode.Text.Bytes

/-!
What can be asked of an output sink.
-/

namespace TargetCode

/-- A stretch of output that is reported to a log. -/
structure Region where
  id : Nat
  data : Option String
  /-- Whether its content is only logged and never shown. -/
  logOnly : Bool
  deriving DecidableEq, Repr

structure LoggingCall where
  name : String
  placeholder : String
  args : List String
  deriving DecidableEq, Repr

inductive Call where
  | text (s : String)
  | char (c : Char)
  | range (s : String) (start stop : Nat)
  | logging (call : LoggingCall)
  | enter (region : Region)
  | exit
  | flush
  deriving DecidableEq, Repr

end TargetCode
