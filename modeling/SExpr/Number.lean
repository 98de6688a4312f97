import SExpr.Binary64.Decimal
import SExpr.Digits

/-! Which atoms are numbers.

An integer is an optional sign and digits, a float has a point with a digit on
at least one side and may have an exponent. An integer outside the 64-bit range
is no number at all: its atom stays a symbol. -/

namespace SExpr

/-- A number as an atom spells it. -/
inductive Number
  | int (n : Int64)
  | float (x : Binary64)
deriving DecidableEq

namespace Number
open Digits

/-- An integer that fits in 64 bits. -/
def int? (n : Int) : Option Number :=
  if -2 ^ 63 ≤ n ∧ n < 2 ^ 63 then some (.int (Int64.ofInt n)) else none

/-- The power of ten that an exponent stands for; no exponent stands for zero. -/
def exponent? : List Char → Option Int
  | [] => some 0
  | mark :: rest =>
    let (negative, digits) := splitSign rest
    if (mark == 'e' || mark == 'E') && !digits.isEmpty && digits.all Char.isDigit then
      some (signedValue negative digits)
    else none

/-- The number that a whole text spells. -/
def read? (text : List Char) : Option Number :=
  let (negative, body) := splitSign text
  let whole := body.takeWhile Char.isDigit
  match body.dropWhile Char.isDigit with
  | [] => if whole.isEmpty then none else int? (signedValue negative whole)
  | '.' :: rest =>
    let places := rest.takeWhile Char.isDigit
    if whole.isEmpty && places.isEmpty then none
    else (exponent? (rest.dropWhile Char.isDigit)).map fun exponent =>
      .float (.ofDecimal negative
        ⟨value (whole ++ places), exponent - places.length⟩)
  | _ => none

def isNumber (text : List Char) : Bool := (read? text).isSome

def intText (n : Int64) : List Char := Digits.integerText n.toInt

end Number
end SExpr
