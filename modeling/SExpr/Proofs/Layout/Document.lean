import SExpr.Printer.Pretty

/-! # The document of a layout

The printer of documents keeps those of the items at hand in an array, and takes what is
inside brackets or behind an apostrophe out of it again. In the end it has added one
document, which `doc` puts together along the layout. -/

namespace SExpr

theorem PrettyPrinter.collect_eq {make : List Doc → Doc} {inside : PrettyPrinter → PrettyPrinter}
    {p : PrettyPrinter} {added : List Doc} (h : inside p = ⟨p.items ++ added.toArray⟩) :
    p.collect make inside = ⟨p.items.push (make added)⟩ := by
  rw [collect, h]
  simp

namespace Layout

mutual

def doc : Layout → Doc
  | .atom content => Doc.ofText content
  | .quoted inner => PrettyPrinter.primed [inner.doc]
  | .sequence kind items => PrettyPrinter.bracketed kind (docs items)

def docs : List Layout → List Doc
  | [] => []
  | item :: rest => item.doc :: docs rest

end

theorem doc_quoted (inner : Layout) : (quoted inner).doc = (Doc.text "'").cat inner.doc := rfl

mutual

theorem print_pretty (l : Layout) (p : PrettyPrinter) : l.print p = ⟨p.items.push l.doc⟩ := by
  match l with
  | .atom content => rfl
  | .quoted inner =>
    have hinner : inner.print p = ⟨p.items ++ [inner.doc].toArray⟩ := by
      rw [print_pretty inner, Array.push_eq_append]
    exact PrettyPrinter.collect_eq hinner
  | .sequence kind items => exact PrettyPrinter.collect_eq (printAll_pretty items p)

theorem printAll_pretty (items : List Layout) (p : PrettyPrinter) :
    printAll items p = ⟨p.items ++ (docs items).toArray⟩ := by
  match items with
  | [] => simp [printAll, docs]
  | item :: rest =>
    rw [printAll, print_pretty item, printAll_pretty rest, docs, List.toArray_cons,
      Array.push_eq_append, Array.append_assoc]

end

theorem pretty_eq_render [Display] (width : Nat) (l : Layout) :
    l.pretty width = Doc.render width "" 0 [⟨0, false, l.doc⟩] := by
  rw [pretty, print_pretty]
  rfl

end Layout
end SExpr
