import SExpr.Binary64.Shortest
import SExpr.Digits

/-! The text of a finite number. Leading digits from `10 ^ -4` up to `10 ^ 15`
are written positionally, all others with an exponent. Either way there is a
point with a digit on both sides, so that the text is never read as an integer. -/

namespace SExpr.Binary64

def dropTrailingZeros (digits : List Char) : List Char :=
  (digits.reverse.dropWhile (· == '0')).reverse

def orZero (digits : List Char) : List Char := if digits.isEmpty then ['0'] else digits

/-- Writes `0.d₁d₂… * 10 ^ (leading + 1)` with all its places. -/
def positional (digits : List Char) (leading : Int) : List Char :=
  if leading < 0 then
    '0' :: '.' :: (List.replicate (-leading - 1).toNat '0' ++ digits)
  else
    let whole := leading.toNat + 1
    digits.take whole ++ List.replicate (whole - digits.length) '0'
      ++ '.' :: orZero (digits.drop whole)

/-- Writes `d₁.d₂… * 10 ^ leading` with an exponent. -/
def withExponent (digits : List Char) (leading : Int) : List Char :=
  orZero (digits.take 1) ++ '.' :: orZero (digits.drop 1) ++ 'e' :: Digits.integerText leading

/-- The text of an absolute value that is not zero. -/
def decimalText (d : Decimal) : List Char :=
  let all := Nat.toDigits 10 d.digits
  let digits := dropTrailingZeros all
  let leading := d.exponent + all.length - 1
  if -4 ≤ leading ∧ leading < 16 then positional digits leading
  else withExponent digits leading

/-- The text of a finite number; a zero keeps its sign. -/
def text (x : Binary64) : List Char :=
  let absolute := if x.magnitude = 0 then ['0', '.', '0'] else decimalText x.shortest
  if x.isNegative then '-' :: absolute else absolute

/-- What a number that is not finite is called. -/
def name (x : Binary64) : String :=
  if x.isNaN then "NaN" else if x.isNegative then "-inf" else "inf"

end SExpr.Binary64
