import SExpr.Bracket.Table

/-! What each character means to a reader. The table of bracket kinds and the
comment character together give every character one role, and the first rule
that applies decides: a comment character that is also a bracket is a comment. -/

namespace SExpr

structure Readtable where
  brackets : BracketTable := .default
  comment : Char := ';'

/-- What a character does where a token could start. -/
inductive Role
  | blank
  | comment
  | opening (kind : Bracket)
  | closing (kind : Bracket)
  | apostrophe
  | quote
  | constituent
deriving DecidableEq

namespace Readtable

/-- The first rule that applies gives the role. -/
def role (rt : Readtable) (c : Char) : Role :=
  if isBlank c then .blank
  else if c = rt.comment then .comment
  else match rt.brackets.opener? c with
    | some kind => .opening kind
    | none => match rt.brackets.closer? c with
      | some kind => .closing kind
      | none =>
        if c = '\'' then .apostrophe
        else if c = '"' then .quote
        else .constituent

/-- An atom ends before a character that has another role. A backslash is looked
at before this test, so it never ends an atom. -/
def endsAtom (rt : Readtable) (c : Char) : Bool := rt.role c != .constituent

/-- A character that a symbol has to escape. Characters that are reserved by
default stay escaped under another comment character. -/
def mustEscape (rt : Readtable) (c : Char) : Bool :=
  isReserved c || c == rt.comment || rt.brackets.isDelimiter c

theorem endsAtom_iff (rt : Readtable) (c : Char) :
    rt.endsAtom c = true ↔ isBlank c = true ∨ c = rt.comment ∨
      rt.brackets.isDelimiter c = true ∨ c = '\'' ∨ c = '"' := by
  simp only [endsAtom, role, BracketTable.isDelimiter]
  grind

end Readtable
end SExpr
