import SExpr.Layout
import SExpr.Print.Options
import SExpr.Text.Atom
import SExpr.Text.StringLiteral

/-! How the parts of a value are spelled. -/

namespace SExpr

/-- The bracket kinds that a writer may use, and its choices. -/
structure Writer where
  brackets : BracketTable := .default
  options : PrintOptions := {}

namespace Writer

/-- A symbol, whatever could be misread being escaped. -/
def symbol (w : Writer) (name : String) : Except PrintError Layout :=
  if name.isEmpty then .error .emptySymbol
  else .ok (.atom (.ofList (Atom.encode (w.options.readtable w.brackets) name.toList)))

def string (content : String) : Layout :=
  .atom (.ofList (StringLiteral.encode content.toList))

def text (w : Writer) (content : String) : Except PrintError Layout :=
  match w.options.textStyle with
  | .string => .ok (string content)
  | .symbol => w.symbol content

def int (n : Int64) : Layout := .atom (.ofList (Number.intText n))

/-- A finite number; no other number has a spelling. -/
def float (x : Binary64) : Except PrintError Layout :=
  if x.isFinite then .ok (.atom (.ofList x.text)) else .error (.nonFinite x)

def bool (w : Writer) (b : Bool) : Layout :=
  .atom (if b then w.options.trueName else w.options.falseName)

def nil (w : Writer) : Layout := .atom w.options.nilName

/-- The kind that tuples are written in. It is always known to the reader. -/
def tupleKind (w : Writer) : Bracket := w.options.tupleStyle.kind

/-- Refuses a kind that the reader would not know. -/
def known (w : Writer) (kind : Bracket) : Except PrintError Unit :=
  if w.brackets.contains kind then .ok () else .error (.unknownBracket kind)

end Writer
end SExpr
