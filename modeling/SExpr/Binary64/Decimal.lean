import SExpr.Binary64

/-! Decimal numbers: the digits and the power of ten that a text can spell, and
the binary number nearest to each. -/

namespace SExpr

/-- The number `digits * 10 ^ exponent`. -/
structure Decimal where
  digits : Nat
  exponent : Int
deriving DecidableEq, Inhabited

/-- The magnitude of the nearest binary number.

Powers of ten that are out of reach are settled without computing them: above
`10 ^ 310` every digit overflows, and since `digits < 2 ^ (log2 digits + 1)`, an
exponent below `-(log2 digits) - 400` leaves less than half the least step. -/
def Decimal.nearest (d : Decimal) : Nat :=
  if d.digits = 0 then 0
  else if 310 < d.exponent then Binary64.infinite
  else if d.exponent < -(d.digits.log2 : Int) - 400 then 0
  else if 0 ≤ d.exponent then
    Binary64.nearest (d.digits * 10 ^ d.exponent.toNat) 1
  else
    Binary64.nearest d.digits (10 ^ (-d.exponent).toNat)

/-- The binary number nearest to a decimal; too large a decimal gives infinity
and too small a one gives zero, both with the sign. -/
def Binary64.ofDecimal (negative : Bool) (d : Decimal) : Binary64 :=
  .ofMagnitude negative d.nearest

end SExpr
