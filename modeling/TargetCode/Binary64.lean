/-!
Floating-point numbers as 64-bit patterns: one sign bit, eleven exponent
bits and fifty-two fraction bits.

Two patterns are the same value of this type only if they agree bit by bit,
so the two zeros differ and a not-a-number pattern equals itself.
`equalNumbers` is the other comparison, the one of arithmetic.
-/

namespace TargetCode

structure Binary64 where
  bits : UInt64
  deriving DecidableEq, Repr

namespace Binary64

variable (x y : Binary64)

/-- One more than the largest fraction field. A normal number has this bit
set in front of its fraction. -/
def leadingBit : Nat := 0x10000000000000

def isNegative : Bool :=
  0x8000000000000000 ≤ x.bits.toNat

def exponentField : Nat :=
  x.bits.toNat / leadingBit % 2048

def fractionField : Nat :=
  x.bits.toNat % leadingBit

def isNaN : Bool :=
  x.exponentField = 2047 && x.fractionField ≠ 0

def isInfinite : Bool :=
  x.exponentField = 2047 && x.fractionField = 0

def isZero : Bool :=
  x.exponentField = 0 && x.fractionField = 0

/-- The whole number `m` for which a finite pattern stands for the
magnitude `m * 2 ^ exponent`. -/
def significand : Nat :=
  if x.exponentField = 0 then x.fractionField else x.fractionField + leadingBit

/-- The power of two that scales the significand. -/
def exponent : Int :=
  max x.exponentField 1 - 1075

/-- Equality of the numbers that two patterns stand for: the zeros agree,
and not-a-number equals nothing. -/
def equalNumbers : Bool :=
  !x.isNaN && !y.isNaN && (x = y || (x.isZero && y.isZero))

end Binary64

end TargetCode
