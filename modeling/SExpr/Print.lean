import SExpr.Printer.Pretty
import SExpr.Printer.Simple
import SExpr.Print.Writer
import SExpr.Value

/-! Printing a value: first its layout, then its text, which a printer writes. The layout
fails at the first part that can not be printed, and a sequence in unknown
brackets fails before anything in it. -/

namespace SExpr

mutual

/-- The value with its atoms spelled. -/
def Value.layout (w : Writer) : Value → Except PrintError Layout
  | .symbol name => w.symbol name
  | .literal content => .ok (Writer.string content)
  | .text content => w.text content
  | .int n => .ok (Writer.int n)
  | .float x => Writer.float x
  | .bool b => .ok (w.bool b)
  | .nil => .ok w.nil
  | .quoted inner => do return .quoted (← inner.layout w)
  | .sequence kind items => do
    w.known kind
    return .sequence kind (← Value.layouts w items)
  | .tuple items => do return .sequence w.tupleKind (← Value.layouts w items)

def Value.layouts (w : Writer) : List Value → Except PrintError (List Layout)
  | [] => .ok []
  | v :: rest => do
    let l ← v.layout w
    let ls ← Value.layouts w rest
    return l :: ls

end

namespace Writer

def printCompact (w : Writer) (v : Value) : Except PrintError String :=
  (v.layout w).map Layout.simple

/-- The text of a layout, pretty if the options say so. -/
def render [Display] (w : Writer) (l : Layout) : String :=
  if w.options.pretty then l.pretty w.options.width else l.simple

def printPretty [Display] (w : Writer) (v : Value) : Except PrintError String :=
  (v.layout w).map (Layout.pretty w.options.width)

def print [Display] (w : Writer) (v : Value) : Except PrintError String :=
  (v.layout w).map w.render

end Writer
end SExpr
