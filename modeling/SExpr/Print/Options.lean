import SExpr.Digits
import SExpr.Print.Error
import SExpr.Readtable

/-! What a writer can be told, and how it is told by name. -/

namespace SExpr

inductive TextStyle
  | string
  | symbol
deriving DecidableEq, Inhabited

inductive TupleStyle
  | list
  | array
deriving DecidableEq, Inhabited

structure PrintOptions where
  textStyle : TextStyle := .string
  tupleStyle : TupleStyle := .list
  /-- Whether long sequences are broken over several lines. -/
  pretty : Bool := false
  width : Nat := 80
  /-- How `nil` is written; this and the next two are written as they are. -/
  nilName : String := "nil"
  trueName : String := "t"
  falseName : String := "()"
  /-- The comment character of the reader that the output is meant for. -/
  comment : Char := ';'
deriving DecidableEq, Inhabited

/-! ## Choices by name -/

def TextStyle.name : TextStyle → String
  | .string => "string"
  | .symbol => "symbol"

def TextStyle.ofName? (name : String) : Option TextStyle :=
  if name = "string" then some .string
  else if name = "symbol" then some .symbol
  else none

def TupleStyle.name : TupleStyle → String
  | .list => "list"
  | .array => "array"

def TupleStyle.ofName? (name : String) : Option TupleStyle :=
  if name = "list" then some .list
  else if name = "array" then some .array
  else none

def TupleStyle.kind : TupleStyle → Bracket
  | .list => .parens
  | .array => .square

namespace PrintOptions

def bool? (text : String) : Option Bool :=
  if text = "true" then some true
  else if text = "false" then some false
  else none

/-- A number below `2 ^ 64`: digits, after a plus sign or not. -/
def width? (text : String) : Option Nat :=
  let digits := match text.toList with
    | '+' :: rest => rest
    | all => all
  if !digits.isEmpty && digits.all Char.isDigit && Digits.value digits < 2 ^ 64 then
    some (Digits.value digits)
  else none

def char? (text : String) : Option Char :=
  match text.toList with
  | [c] => some c
  | _ => none

/-- The options after `key` was given the value that a text names, if it has such
a value; unknown keys have none. -/
def with? (o : PrintOptions) (key value : String) : Option PrintOptions :=
  if key = "str_as" then
    (TextStyle.ofName? value).map fun style => { o with textStyle := style }
  else if key = "tuple_as" then
    (TupleStyle.ofName? value).map fun style => { o with tupleStyle := style }
  else if key = "pretty_print" then
    (bool? value).map fun pretty => { o with pretty := pretty }
  else if key = "width" then
    (width? value).map fun width => { o with width := width }
  else if key = "line_comment" then
    (char? value).map fun c => { o with comment := c }
  else none

/-- Sets an option by name. The error carries the key and the value. -/
def set (o : PrintOptions) (key value : String) : Except PrintError PrintOptions :=
  match o.with? key value with
  | some o' => .ok o'
  | none => .error (.invalidOption key value)

/-- The roles of characters for the reader that the output is meant for. -/
def readtable (o : PrintOptions) (brackets : BracketTable) : Readtable :=
  ⟨brackets, o.comment⟩

end PrintOptions
end SExpr
