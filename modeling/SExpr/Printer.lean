import SExpr.Layout

/-! What is done with a layout, part by part.

A printer says what becomes of an atom, and what of brackets and of an apostrophe
around what is printed inside them. -/

namespace SExpr

class Printer (σ : Type) where
  /-- An atom, written as it is. -/
  atom : String → σ → σ
  /-- Brackets around what a function prints. -/
  delimited : Bracket → (σ → σ) → σ → σ
  /-- An apostrophe before what a function prints. -/
  quoted : (σ → σ) → σ → σ

namespace Layout

variable {σ : Type} [Printer σ]

mutual

def print : Layout → σ → σ
  | .atom content, s => Printer.atom content s
  | .quoted inner, s => Printer.quoted (fun s => inner.print s) s
  | .sequence kind items, s => Printer.delimited kind (fun s => printAll items s) s

/-- Each item in turn. -/
def printAll : List Layout → σ → σ
  | [], s => s
  | item :: rest, s => printAll rest (item.print s)

end

end Layout
end SExpr
