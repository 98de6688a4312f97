import SExpr.Binary64.Decimal

/-! The shortest decimal that reads back as a given number.

For one digit, two digits and so on, the two decimals next to the number are
tried, and the first number of digits with a decimal that reads back wins. Of
two such decimals the nearer is taken, and the upper one of two that are equally
near. What is returned reads back because that is what is tested. -/

namespace SExpr.Binary64

/-- The absolute value written out: `steps / 2 ^ 1074` has at most 1074 places. -/
def exactDecimal (x : Binary64) : Decimal := ⟨x.steps * 5 ^ 1074, -1074⟩

/-- The exponent of the leading decimal digit of a number that is not zero. No
such number is below `10 ^ -324`, so that many places hold its first digit. -/
def leadingExponent (x : Binary64) : Int :=
  (Nat.toDigits 10 (x.steps * 10 ^ 324 / 2 ^ 1074)).length - 325

/-- The quotient of `x` and `10 ^ exponent` as numerator and denominator. -/
def scaledBy (x : Binary64) (exponent : Int) : Nat × Nat :=
  if 0 ≤ exponent then (x.steps, 2 ^ 1074 * 10 ^ exponent.toNat)
  else (x.steps * 10 ^ (-exponent).toNat, 2 ^ 1074)

/-- A decimal that reads back as `x`, if one of the two multiples of
`10 ^ exponent` next to `x` does. -/
def neighbour? (x : Binary64) (exponent : Int) : Option Decimal :=
  let (num, den) := x.scaledBy exponent
  let below : Decimal := ⟨num / den, exponent⟩
  let above : Decimal := ⟨num / den + 1, exponent⟩
  let readsBack (d : Decimal) : Bool := d.nearest == x.magnitude
  if readsBack above && (!readsBack below || den ≤ 2 * (num % den)) then some above
  else if readsBack below then some below
  else none

/-- The shortest decimal for the absolute value of a finite number. Seventeen
digits always suffice; the exact value stands in where none was found. -/
def shortest (x : Binary64) : Decimal :=
  let top := x.leadingExponent
  ((List.range 17).findSome? fun more => x.neighbour? (top - (more : Nat))).getD x.exactDecimal

end SExpr.Binary64
