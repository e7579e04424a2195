import TargetCode.Binary64

/-!
The fewest decimal digits that read back as a given floating-point number.

A finite number is the nearest one to every real in an interval around it.
Among the multiples of `10 ^ p` only the two neighbours of the number have
to be tried: if any multiple lies in the interval, so does one of them. The
coarsest grid with a hit gives the fewest digits.
-/

namespace TargetCode

structure Decimal where
  significand : Nat
  exponent : Int
  deriving DecidableEq, Repr

namespace Binary64

/-- Factors `(n, d)` for which `t * 2 ^ (exponent - 2)` stands to
`c * 10 ^ p` as `t * n` stands to `c * d`. Quarters of the last place are
fine enough to hold the ends of the rounding interval. -/
def gridScale (x : Binary64) (p : Int) : Nat × Nat :=
  let q := x.exponent - 2
  (Nat.pow 2 q.toNat * Nat.pow 10 (-p).toNat, Nat.pow 2 (-q).toNat * Nat.pow 10 p.toNat)

/-- Whether the multiple `c` of the grid with factors `n` and `d` rounds to
`x`. Below a power of two the lower neighbour is only half as far away; an
end of the interval belongs to it when the significand is even. -/
def attracts (x : Binary64) (n d c : Nat) : Bool :=
  let m := x.significand
  let low := if m = leadingBit && 1 < x.exponentField then 4 * m - 1 else 4 * m - 2
  let high := 4 * m + 2
  if m % 2 = 0 then low * n ≤ c * d && c * d ≤ high * n
  else low * n < c * d && c * d < high * n

/-- The multiple of `10 ^ p` that rounds to `x` and lies nearest to it, the
larger one of two at the same distance. -/
def onGrid? (x : Binary64) (p : Int) : Option Nat :=
  let (n, d) := x.gridScale p
  let v := 4 * x.significand * n
  let c := v / d
  match x.attracts n d c, x.attracts n d (c + 1) with
  | true, true => some (if v - c * d < (c + 1) * d - v then c else c + 1)
  | true, false => some c
  | false, true => some (c + 1)
  | false, false => none

def coarsestGrid (x : Binary64) : Nat → Int → Decimal
  | 0, p => ⟨0, p⟩
  | tries + 1, p =>
    match x.onGrid? p with
    | some c => ⟨c, p⟩
    | none => coarsestGrid x tries (p - 1)

/-- The shortest decimal that reads back as the magnitude of a finite
number. No number is as large as `10 ^ 309`, and a grid finer than
`10 ^ (-342)` is never needed. -/
def shortest (x : Binary64) : Decimal :=
  if x.isZero then ⟨0, 0⟩ else x.coarsestGrid 651 308

end Binary64

end TargetCode
