import SExpr.Printer

/-! Everything on one line. What is written last says whether a space has to follow
before anything else is written. -/

namespace SExpr

structure SimplePrinter where
  needsSpace : Bool := false
  text : String := ""

namespace SimplePrinter

/-- The text so far, with the space that is due. -/
def separate (p : SimplePrinter) : String := if p.needsSpace then p.text ++ " " else p.text

instance : Printer SimplePrinter where
  atom content p := ⟨true, p.separate ++ content⟩
  delimited kind inside p :=
    let printed := inside ⟨false, p.separate.push kind.opener⟩
    ⟨true, printed.text.push kind.closer⟩
  quoted inside p := inside ⟨false, p.separate.push '\''⟩

end SimplePrinter

/-- A layout without line breaks other than those in its atoms. -/
def Layout.simple (l : Layout) : String := (l.print ({} : SimplePrinter)).text

end SExpr
