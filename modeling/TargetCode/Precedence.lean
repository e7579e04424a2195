/-!
Binding strength of operators and the rule that decides where parentheses
are needed.

Every operator has a level, and every binary operator an associativity. An
operand is put in parentheses exactly when leaving them out would let the
text be grouped differently: its own level is weaker than the operator's,
or it is equally strong on a side that the associativity does not group
towards.
-/

namespace TargetCode

/-- How tightly an expression holds together, from the weakest to the
strongest. Leaves and bracketed forms are `primary`. -/
inductive Level where
  | conditional
  | logicalOr
  | logicalAnd
  | logicalNot
  | equality
  | relational
  | additive
  | multiplicative
  | unary
  | primary
  deriving DecidableEq, Repr

namespace Level

def rank : Level → Nat
  | .conditional => 1
  | .logicalOr => 2
  | .logicalAnd => 3
  | .logicalNot => 4
  | .equality => 5
  | .relational => 6
  | .additive => 7
  | .multiplicative => 8
  | .unary => 9
  | .primary => 10

instance : Ord Level where
  compare a b := compare a.rank b.rank

def weaker (a b : Level) : Bool :=
  a.rank < b.rank

end Level

inductive Associativity where
  | left
  | right
  | nonAssociative
  deriving DecidableEq, Repr

inductive Side where
  | left
  | right
  deriving DecidableEq, Repr

/-- An associativity favours the side whose operand may be equally strong
without parentheses. -/
def Associativity.admits : Associativity → Side → Bool
  | .left, .left => true
  | .right, .right => true
  | _, _ => false

namespace Level

/-- Whether an operand of level `operand`, standing on side `side` of an
operator of level `operator`, needs parentheses. -/
def needsParens (operator : Level) (associativity : Associativity) (operand : Level)
    (side : Side) : Bool :=
  if operand = .primary then false
  else operand.weaker operator || (operand = operator && !associativity.admits side)

/-- Whether the only operand of an operator needs parentheses. An equally
strong operand does not: there is no second operand to group with. -/
def needsParensAlone (operator operand : Level) : Bool :=
  operand ≠ .primary && operand.weaker operator

end Level

end TargetCode
