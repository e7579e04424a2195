import TargetCode.Decimal.Shortest

/-!
Decimal numbers as text.
-/

namespace TargetCode

namespace Decimal

def natural (n : Nat) : String :=
  Nat.repr n

def integer (i : Int) : String :=
  if i < 0 then "-" ++ natural i.natAbs else natural i.natAbs

/-- Choices for writing a decimal: the exponents of the leading digit
between which the point is put into the digits. Outside that range the point
follows the first digit and the exponent is written after an `e`. -/
structure Layout where
  least : Int
  greatest : Int
  deriving DecidableEq, Repr

def zeros (n : Nat) : List Char :=
  List.replicate n '0'

/-- Digits with the point after the digit of weight `10 ^ 0`, and at least
one digit on either side of it. `lead` is the exponent of the first digit. -/
def positional (digits : List Char) (lead : Int) : List Char :=
  if lead < 0 then
    '0' :: '.' :: (zeros (-lead - 1).toNat ++ digits)
  else
    let whole := lead.toNat + 1
    let fraction := digits.drop whole
    digits.take whole ++ zeros (whole - digits.length) ++ '.' ::
      (if fraction.isEmpty then ['0'] else fraction)

/-- The first digit, a point and the other digits if there are any, and the
exponent of the first digit. -/
def scientific (digits : List Char) (lead : Int) : List Char :=
  let fraction := digits.drop 1
  digits.take 1 ++ (if fraction.isEmpty then [] else '.' :: fraction) ++
    'e' :: (integer lead).toList

def Layout.write (layout : Layout) (x : Decimal) : String :=
  let digits := (natural x.significand).toList
  let lead := x.exponent + digits.length - 1
  String.ofList <|
    if layout.least ≤ lead && lead ≤ layout.greatest then positional digits lead
    else scientific digits lead

end Decimal

/-- Numbers from a ten-thousandth up to, not including, ten quadrillion are
written positionally. -/
def Binary64.layout : Decimal.Layout :=
  ⟨-4, 15⟩

/-- A finite number with its sign, which zero keeps too. -/
def Binary64.finiteText (x : Binary64) : String :=
  (if x.isNegative then "-" else "") ++ layout.write x.shortest

end TargetCode
