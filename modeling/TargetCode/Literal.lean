import TargetCode.Binary64

namespace TargetCode

/-- The constants of the expression language. A floating-point constant is
told apart by its bits, so `0.0` and `-0.0` are two literals. -/
inductive Literal where
  | str (value : String)
  | int (value : Int)
  | float (value : Binary64)
  | bool (value : Bool)
  | null
  deriving DecidableEq, Repr

/-- Whether the text of the literal starts with a minus sign. -/
def Literal.isNegative : Literal → Bool
  | .int i => i < 0
  | .float x => x.isNegative && !x.isNaN
  | .str _ | .bool _ | .null => false

def Literal.isNumber : Literal → Bool
  | .int _ | .float _ => true
  | .str _ | .bool _ | .null => false

end TargetCode
