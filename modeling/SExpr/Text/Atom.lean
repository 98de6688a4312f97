import SExpr.Number
import SExpr.Readtable

/-! How an atom is written. A backslash takes the character after it as it is;
an atom with a backslash is always a symbol, so a symbol that looks like a number
is written with its first character escaped. -/

namespace SExpr.Atom

/-- The longest atom at the front of a text, and what follows it. A backslash at
the very end is part of the atom. -/
def split (rt : Readtable) : List Char → List Char × List Char
  | [] => ([], [])
  | ['\\'] => (['\\'], [])
  | '\\' :: c :: rest =>
    let (raw, after) := split rt rest
    ('\\' :: c :: raw, after)
  | c :: rest =>
    if rt.endsAtom c then ([], c :: rest)
    else
      let (raw, after) := split rt rest
      (c :: raw, after)

theorem split_append (rt : Readtable) (text : List Char) :
    (split rt text).1 ++ (split rt text).2 = text := by
  fun_induction split rt text <;> simp_all

/-- An atom that can start at all is not empty. -/
theorem split_ne_nil {rt : Readtable} {c : Char} (h : rt.endsAtom c = false)
    (rest : List Char) : (split rt (c :: rest)).1 ≠ [] := by
  generalize htext : c :: rest = text
  cases text using split.fun_cases rt <;> grind [split]

/-- The text that a written atom stands for; a backslash at the very end stands
for itself. -/
def decode : List Char → List Char
  | [] => []
  | ['\\'] => ['\\']
  | '\\' :: c :: rest => c :: decode rest
  | c :: rest => c :: decode rest

def isEscaped (raw : List Char) : Bool := raw.contains '\\'

/-- A character, after a backslash where it needs one. -/
def encodeChar (rt : Readtable) (c : Char) : List Char :=
  if rt.mustEscape c then ['\\', c] else [c]

def encode (rt : Readtable) (text : List Char) : List Char :=
  let plain := text.flatMap (encodeChar rt)
  match text with
  | c :: _ => if Number.isNumber text && !rt.mustEscape c then '\\' :: plain else plain
  | [] => plain

end SExpr.Atom
