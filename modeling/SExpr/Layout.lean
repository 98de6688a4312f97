import SExpr.Bracket

/-! What is left of a value once its atoms are spelled: texts, apostrophes and
bracketed sequences. -/

namespace SExpr

inductive Layout
  | atom (content : String)
  | quoted (inner : Layout)
  | sequence (kind : Bracket) (items : List Layout)
deriving Inhabited

end SExpr
