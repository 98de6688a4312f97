import SExpr.Printer.Simple

/-! # A layout on one line

`compact` puts one space between neighbouring items, around an empty text as well. The
printer that keeps a flag writes the same text: behind a space, if one is due, and with
one due behind it (`print_simple`). -/

namespace SExpr.Layout

mutual

/-- Everything on one line. -/
def compact : Layout → String
  | .atom content => content
  | .quoted inner => "'" ++ inner.compact
  | .sequence kind items =>
    kind.opener.toString ++ " ".intercalate (compactItems items) ++ kind.closer.toString

def compactItems : List Layout → List String
  | [] => []
  | item :: rest => item.compact :: compactItems rest

end

theorem intercalate_compactItems_cons (item next : Layout) (rest : List Layout) :
    " ".intercalate (compactItems (item :: next :: rest)) =
      item.compact ++ " " ++ " ".intercalate (compactItems (next :: rest)) :=
  String.intercalate_cons_cons

/-! ## The printer -/

theorem push_eq_append (text : String) (c : Char) : text.push c = text ++ c.toString :=
  String.push_eq_append c

mutual

theorem print_simple (l : Layout) (p : SimplePrinter) :
    l.print p = ⟨true, p.separate ++ l.compact⟩ := by
  match l with
  | .atom content => rfl
  | .quoted inner =>
    have hinner := print_simple inner ⟨false, p.separate.push '\''⟩
    rw [push_eq_append] at hinner
    rw [compact, ← String.append_assoc]
    exact hinner
  | .sequence kind items =>
    have hitems : (printAll items (⟨false, p.separate.push kind.opener⟩ : SimplePrinter)).text =
        p.separate.push kind.opener ++ " ".intercalate (compactItems items) := by
      -- right behind the opener no space is due
      by_cases hnil : items = []
      · subst hnil
        exact String.append_empty.symm
      · exact text_printAll_simple hnil _
    rw [compact, ← String.append_assoc, ← String.append_assoc, ← push_eq_append,
      ← push_eq_append, ← hitems]
    rfl

theorem text_printAll_simple {items : List Layout} (h : items ≠ []) (p : SimplePrinter) :
    (printAll items p).text = p.separate ++ " ".intercalate (compactItems items) := by
  match items with
  | [item] => exact congrArg SimplePrinter.text (print_simple item p)
  | item :: next :: rest =>
    have hrest := text_printAll_simple (List.cons_ne_nil next rest)
      ⟨true, p.separate ++ item.compact⟩
    rw [printAll, print_simple item, hrest, intercalate_compactItems_cons,
      ← String.append_assoc, ← String.append_assoc]
    rfl

end

/-- The printer writes the compact text. -/
theorem simple_eq_compact (l : Layout) : l.simple = l.compact := by
  rw [simple, print_simple]
  exact String.empty_append

end SExpr.Layout
