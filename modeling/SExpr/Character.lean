/-! The characters that the notation itself uses. Blanks separate tokens; the
reserved characters can not delimit a sequence, because a reader would never
get to see them as brackets. -/

namespace SExpr

/-- Only these four separate tokens: no other white space of the character set
is a blank. -/
def isBlank (c : Char) : Bool :=
  c == ' ' || c == '\t' || c == '\n' || c == '\r'

/-- Blanks, the quote of a string, the apostrophe, the escape and the default
comment character. -/
def isReserved (c : Char) : Bool :=
  isBlank c || c == '"' || c == '\'' || c == '\\' || c == ';'

theorem isReserved_of_isBlank {c : Char} (h : isBlank c = true) : isReserved c = true := by
  simp [isReserved, h]

end SExpr
