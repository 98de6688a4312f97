import SExpr.Printer.Doc
import SExpr.Proofs.Layout.Compact

/-! # A layout within a width

`fill` decides for each sequence at once whether it is broken: it stays on one line if it
fits there together with what follows it up to the next place where a line may end, and all
sequences in it then stay on that line too. Else every item but the first starts a line of
its own, indented by one column for each enclosing sequence. -/

namespace SExpr

namespace Layout

/-- Whether an atom is written as nothing at all. -/
def isBlankAtom : Layout → Bool
  | .atom content => content.isEmpty
  | _ => false

/-- The indentation before `item` in a sequence that is the `depth`th around it.
The indentation of a line belongs to what is written on it: before a last item
that is written as nothing that is the closer, one level further out. -/
def indentBefore (depth : Nat) (item : Layout) (rest : List Layout) : Nat :=
  if rest.isEmpty && item.isBlankAtom then depth - 1 else depth

mutual

/-- No atom is written as nothing. -/
def Solid : Layout → Prop
  | .atom content => content ≠ ""
  | .quoted inner => inner.Solid
  | .sequence _ items => SolidAll items

def SolidAll : List Layout → Prop
  | [] => True
  | item :: rest => item.Solid ∧ SolidAll rest

end

theorem indentBefore_of_solid {item : Layout} (h : item.Solid) (depth : Nat) (rest : List Layout) :
    indentBefore depth item rest = depth := by
  have hblank : item.isBlankAtom = false := by
    cases item with
    | atom content =>
      have hcontent : content ≠ "" := h
      simpa [isBlankAtom] using hcontent
    | quoted | sequence => rfl
  rw [indentBefore, hblank, Bool.and_false]
  rfl

variable [Display]

mutual

/-- The columns of a layout on one line, text by text. -/
def flatWidth : Layout → Nat
  | .atom content => Width.ofText content
  | .quoted inner => 1 + inner.flatWidth
  | .sequence kind items =>
    Width.ofText kind.opener.toString + flatWidthItems items + Width.ofText kind.closer.toString

/-- The columns of items on one line, a space between neighbours. -/
def flatWidthItems : List Layout → Nat
  | [] => 0
  | [item] => item.flatWidth
  | item :: rest => item.flatWidth + 1 + flatWidthItems rest

end

theorem flatWidthItems_cons (item next : Layout) (rest : List Layout) :
    flatWidthItems (item :: next :: rest) = item.flatWidth + 1 + flatWidthItems (next :: rest) :=
  rfl

mutual

/-- The text of a layout that starts in column `column` inside `depth` sequences. On
the line that it ends on, `trail` more columns follow before the line may end. -/
def fill (width depth column trail : Nat) : Layout → String
  | .atom content => content
  | .quoted inner => "'" ++ inner.fill width depth (column + 1) trail
  | .sequence kind items =>
    let start := column + Width.ofText kind.opener.toString
    let trail := Width.ofText kind.closer.toString + trail
    let inside :=
      if start + flatWidthItems items + trail ≤ width then " ".intercalate (compactItems items)
      else String.join (fillItems width (depth + 1) start trail items)
    kind.opener.toString ++ inside ++ kind.closer.toString

/-- The texts of the items of a broken sequence, the first from column `column` on. -/
def fillItems (width depth column trail : Nat) : List Layout → List String
  | [] => []
  | [item] => [item.fill width depth column trail]
  | item :: next :: rest =>
    let indent := indentBefore depth next rest
    item.fill width depth column 0 :: Doc.newline indent
      :: fillItems width depth indent trail (next :: rest)

end

end Layout
end SExpr
