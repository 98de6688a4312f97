import SExpr.Binary64
import SExpr.Bracket

/-! S-expressions.

A plain list is a sequence in parentheses: every sequence carries its bracket
kind, so a list and a sequence in square brackets differ only in that kind. A
tuple has no kind of its own; the writer chooses one. -/

namespace SExpr

/-- An s-expression. Text, integers, floats, booleans, `nil` and tuples are data
of the host program; the other forms also say how they are spelled. -/
inductive Value
  /-- A name, written bare. -/
  | symbol (name : String)
  /-- A string that is always written between double quotes. -/
  | literal (content : String)
  /-- Text, written as the writer is told to; strings are read as text. -/
  | text (content : String)
  | int (n : Int64)
  | float (x : Binary64)
  | bool (b : Bool)
  | nil
  /-- One expression after an apostrophe. -/
  | quoted (inner : Value)
  /-- Items in brackets of one kind. -/
  | sequence (kind : Bracket) (items : List Value)
  /-- A sequence of fixed length, in the brackets that the writer chooses. -/
  | tuple (items : List Value)
deriving Inhabited

namespace Value

def list (items : List Value) : Value := .sequence .parens items

def symbol? : Value → Option String
  | .symbol name => some name
  | _ => none

/-- The text of a text value; symbols and literals have none. -/
def text? : Value → Option String
  | .text content => some content
  | _ => none

def items? : Value → Option (List Value)
  | .sequence _ items => some items
  | .tuple items => some items
  | _ => none

end Value
end SExpr
