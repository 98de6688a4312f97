/-! Floating-point numbers of 64 bits as their bit patterns.

Everything is exact arithmetic on natural numbers. A finite value is a whole
number of steps of `2 ^ -1074`, the least positive value, so a quotient is
rounded by counting steps (`nearest`) and no real number is needed. -/

namespace SExpr

-- powers are those of the standard library, whatever else is imported
attribute [instance (20000), default_instance 20000] instPowNat

/-- A number in the 64-bit binary format: a sign bit, eleven exponent bits and
fifty-two fraction bits. -/
structure Binary64 where
  bits : UInt64
deriving DecidableEq, Inhabited

namespace Binary64

/-- The bits without the sign. Larger values have larger magnitudes. -/
def magnitude (x : Binary64) : Nat := x.bits.toNat % 2 ^ 63

/-- Whether the sign bit is set; zeros and NaNs have one as well. -/
def isNegative (x : Binary64) : Bool := 2 ^ 63 ≤ x.bits.toNat

def ofMagnitude (negative : Bool) (magnitude : Nat) : Binary64 :=
  ⟨UInt64.ofNat (magnitude + if negative then 2 ^ 63 else 0)⟩

/-- The magnitude of infinity: all exponent bits, no fraction bit. -/
def infinite : Nat := 2047 * 2 ^ 52

def isFinite (x : Binary64) : Bool := x.magnitude < infinite

/-- A NaN has all exponent bits and a fraction. -/
def isNaN (x : Binary64) : Bool := infinite < x.magnitude

/-- One bit pattern for every number: all NaNs are one, and so are both zeros. -/
def canonical (x : Binary64) : Binary64 :=
  if x.isNaN then ofMagnitude false (infinite + 2 ^ 51)
  else if x.magnitude = 0 then ofMagnitude false 0
  else x

/-- Equality as a number, except that a NaN equals every NaN. -/
def sameNumber (x y : Binary64) : Bool := x.canonical = y.canonical

theorem sameNumber_iff {x y : Binary64} :
    x.sameNumber y = true ↔ x.canonical = y.canonical := by
  simp [sameNumber]

/-- The absolute value of a finite number in steps of `2 ^ -1074`. The steps
between neighbours double with each exponent. -/
def steps (x : Binary64) : Nat :=
  let exponent := x.magnitude / 2 ^ 52
  let fraction := x.magnitude % 2 ^ 52
  if exponent = 0 then fraction else (2 ^ 52 + fraction) * 2 ^ (exponent - 1)

/-- The quotient rounded to the nearest whole number, a half to the even one. -/
def roundDiv (num den : Nat) : Nat :=
  let q := num / den
  let r := num % den
  if 2 * r < den then q
  else if den < 2 * r then q + 1
  else q + q % 2

/-- The magnitude of the number nearest to `num / den`, ties to the even one.

The quotient has `num * 2 ^ 1074 / den` steps. Fifty-three bits of that count
are kept, the rest is rounded off, and each bit dropped is one more exponent. A
carry into the fifty-fourth bit lands in the exponent, where it belongs. -/
def nearest (num den : Nat) : Nat :=
  let scaled := num * 2 ^ 1074
  let dropped := (scaled / den).log2 - 52
  min infinite (dropped * 2 ^ 52 + roundDiv scaled (den * 2 ^ dropped))

end Binary64
end SExpr
