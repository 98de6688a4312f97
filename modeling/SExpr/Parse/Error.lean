import SExpr.Source

/-! Why a text can not be read, and where. -/

namespace SExpr

inductive Fault
  /-- The bracket at this place is never closed. -/
  | unterminatedBracket (opener : Char)
  /-- A closer where none, or another one, is due. -/
  | unexpectedCloser (closer : Char)
  /-- Nothing follows the apostrophe that it could quote. -/
  | missingQuoted
  /-- The string that starts at this place never ends. -/
  | unterminatedString
  /-- One bracket or apostrophe more than may enclose each other. -/
  | nestingTooDeep (limit : Nat)
  /-- One expression was asked for. -/
  | expectedSingle (found : Nat)
deriving DecidableEq

/-- A fault and the stretch of the source that it names. -/
structure ParseError where
  fault : Fault
  span : Span
deriving DecidableEq

namespace ParseError

def position (e : ParseError) : Nat := e.span.first.chars

def message (e : ParseError) : String :=
  let position := " at position " ++ toString e.position
  match e.fault with
  | .unterminatedBracket opener => "`" ++ opener.toString ++ "`" ++ position ++ " is never closed"
  | .unexpectedCloser closer => "unexpected `" ++ closer.toString ++ "`" ++ position
  | .missingQuoted => "no s-expression found after an apostrophe" ++ position
  | .unterminatedString => "string starting" ++ position ++ " is never closed"
  | .nestingTooDeep limit => "nesting deeper than " ++ toString limit ++ " levels" ++ position
  | .expectedSingle found => "expected exactly one s-expression, found " ++ toString found

end ParseError
end SExpr
