/-!
The operators of the expression language, free of any spelling.
-/

namespace TargetCode

inductive UnaryOperator where
  | not
  | negate
  deriving DecidableEq, Repr

inductive BinaryOperator where
  | or
  | and
  | equal
  | notEqual
  | less
  | lessEqual
  | greater
  | greaterEqual
  | elementOf
  | add
  | subtract
  | multiply
  | divide
  | modulo
  deriving DecidableEq, Repr

/-- Whether the operator compares its operands. -/
def BinaryOperator.compares : BinaryOperator → Bool
  | .equal | .notEqual | .less | .lessEqual | .greater | .greaterEqual | .elementOf => true
  | .or | .and | .add | .subtract | .multiply | .divide | .modulo => false

end TargetCode
