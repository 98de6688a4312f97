import SExpr.Parse
import SExpr.Print
import SExpr.Value.Equality

/-! Reading a text, printing what was read, and reading that again. -/

namespace SExpr

inductive ReprintError
  | parse (e : ParseError)
  | print (e : PrintError)
deriving DecidableEq

structure Reprint where
  values : List Value
  printed : List String
  /-- What the texts, one to a line, are read as. -/
  again : Except ParseError (List Value)

namespace Reprint

/-- Whether the second reading succeeds with values equal to the first. -/
def same (r : Reprint) : Bool :=
  match r.again with
  | .ok values => values == r.values
  | .error _ => false

/-- Reads, prints and reads again; the writer and both readers know the same
brackets. -/
def run [Display] (w : Writer) (o : ParseOptions) (source : String) :
    Except ReprintError Reprint := do
  let values ← (parse w.brackets o source).mapError .parse
  let printed ← (values.mapM w.print).mapError .print
  return ⟨values, printed, parse w.brackets o ("\n".intercalate printed)⟩

end Reprint
end SExpr
