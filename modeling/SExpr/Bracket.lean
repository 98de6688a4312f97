/-! A bracket kind is the pair of characters around one flavour of sequence. -/

namespace SExpr

-- characters are hashed by the standard library, whatever else is imported
attribute [local instance (high)] instHashableChar

structure Bracket where
  opener : Char
  closer : Char
deriving DecidableEq, Hashable, Inhabited

namespace Bracket

/-- Round parentheses, the kind of plain lists. -/
def parens : Bracket := ⟨'(', ')'⟩

/-- Square brackets, the kind that tuples may be written in. -/
def square : Bracket := ⟨'[', ']'⟩

def isParens (k : Bracket) : Bool := k == parens

def chars (k : Bracket) : List Char := [k.opener, k.closer]

/-- Kinds are ordered by opener, then by closer. -/
def le (a b : Bracket) : Bool :=
  a.opener < b.opener || (a.opener == b.opener && a.closer ≤ b.closer)

/-- Sorted by `le`; repeated kinds stay. -/
def sort (kinds : List Bracket) : List Bracket := kinds.mergeSort le

end Bracket
end SExpr
