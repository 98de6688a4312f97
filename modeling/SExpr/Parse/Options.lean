import SExpr.Readtable

/-! What a reader can be told. -/

namespace SExpr

/-- The names that a reader takes for something other than a symbol, and its
limits. Escaped atoms are symbols whatever their names. -/
structure ParseOptions where
  nilName : Option String := none
  trueName : Option String := none
  falseName : Option String := none
  comment : Char := ';'
  /-- How many brackets and apostrophes may enclose each other. -/
  maxDepth : Nat := 1024
deriving DecidableEq, Inhabited

/-- The roles of characters for this reader. -/
def ParseOptions.readtable (o : ParseOptions) (brackets : BracketTable) : Readtable :=
  ⟨brackets, o.comment⟩

end SExpr
