/-! Decimal digits and signs: what a run of digits is worth, and the text of a
whole number. -/

namespace SExpr.Digits

/-- The value of a run of digits; of an empty run, zero. -/
def value (digits : List Char) : Nat := Nat.ofDigitChars 10 digits 0

/-- Whether the sign is a minus, and what follows the sign. -/
def splitSign : List Char → Bool × List Char
  | '-' :: rest => (true, rest)
  | '+' :: rest => (false, rest)
  | text => (false, text)

def signedValue (negative : Bool) (digits : List Char) : Int :=
  if negative then -(value digits : Int) else value digits

/-- A whole number, with a sign only where it is negative. -/
def integerText (n : Int) : List Char :=
  if n < 0 then '-' :: Nat.toDigits 10 n.natAbs else Nat.toDigits 10 n.natAbs

@[simp]
theorem value_toDigits (n : Nat) : value (Nat.toDigits 10 n) = n := by
  simp [value]

end SExpr.Digits
