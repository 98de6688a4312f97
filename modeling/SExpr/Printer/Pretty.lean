import SExpr.Printer
import SExpr.Printer.Doc

/-! Printing within a line width. Lines are broken between the items of a sequence and
nowhere else. -/

namespace SExpr

/-- The documents of what is printed so far, the last one being that of the item at
hand. -/
structure PrettyPrinter where
  items : Array Doc := #[]

namespace PrettyPrinter

/-- Brackets around items, each of which may start a line of its own. -/
def bracketed (kind : Bracket) (items : List Doc) : Doc :=
  ((Doc.ofText kind.opener.toString).cat ((Doc.intersperse .line items).nested 1).grouped).cat
    (Doc.ofText kind.closer.toString)

def primed (items : List Doc) : Doc := (Doc.ofText "'").cat (Doc.concat items)

/-- Takes what a function adds to the items, and adds one document made of it. -/
def collect (make : List Doc → Doc) (inside : PrettyPrinter → PrettyPrinter)
    (p : PrettyPrinter) : PrettyPrinter :=
  let position := p.items.size
  let printed := inside p
  let doc := make (printed.items.extract position).toList
  ⟨(printed.items.shrink position).push doc⟩

instance : Printer PrettyPrinter where
  atom content p := ⟨p.items.push (Doc.ofText content)⟩
  delimited kind inside p := p.collect (bracketed kind) inside
  quoted inside p := p.collect primed inside

end PrettyPrinter

/-- A layout with lines of at most `width` columns where that is possible. -/
def Layout.pretty [Display] (width : Nat) (l : Layout) : String :=
  let doc := Doc.concat (l.print ({} : PrettyPrinter)).items.toList
  Doc.render width "" 0 [⟨0, false, doc⟩]

end SExpr
