import SExpr.Proofs.Layout.Render

/-! # What a layout is written as

Compact or pretty, a layout is written as its atoms, apostrophes and brackets in
order, with blanks between neighbouring items and nowhere else. `Written` says
this and no more: where the lines break is left open. -/

namespace SExpr.Layout

/-- What stands between two items: one space, or a new line with its indentation. -/
def IsSeparator (gap : List Char) : Prop :=
  gap = [' '] ∨ ∃ indent, gap = '\n' :: List.replicate indent ' '

mutual

/-- The text is the layout written out, its items being kept apart somehow. -/
inductive Written : Layout → List Char → Prop
  | atom {content : String} : Written (.atom content) content.toList
  | quoted {inner : Layout} {text : List Char} :
      Written inner text → Written (.quoted inner) ('\'' :: text)
  | sequence {kind : Bracket} {items : List Layout} {text : List Char} :
      WrittenAll items text →
      Written (.sequence kind items) (kind.opener :: (text ++ [kind.closer]))

/-- The text is the items written out, with a separator between neighbours. -/
inductive WrittenAll : List Layout → List Char → Prop
  | nil : WrittenAll [] []
  | single {item : Layout} {text : List Char} : Written item text → WrittenAll [item] text
  | cons {item next : Layout} {rest : List Layout} {text gap others : List Char} :
      Written item text → IsSeparator gap → WrittenAll (next :: rest) others →
      WrittenAll (item :: next :: rest) (text ++ gap ++ others)

end

mutual

theorem written_compact (l : Layout) : Written l l.compact.toList := by
  match l with
  | .atom content => exact .atom
  | .quoted inner =>
    rw [compact, String.toList_append]
    exact .quoted (written_compact inner)
  | .sequence kind items =>
    have hitems := writtenAll_compactItems items
    simpa [compact] using (Written.sequence : _ → Written (.sequence kind items) _) hitems

theorem writtenAll_compactItems (items : List Layout) :
    WrittenAll items (" ".intercalate (compactItems items)).toList := by
  match items with
  | [] => exact .nil
  | [item] =>
    simp only [compactItems, String.intercalate_singleton]
    exact .single (written_compact item)
  | item :: next :: rest =>
    have hrest := writtenAll_compactItems (next :: rest)
    simp only [compactItems, String.intercalate_cons_cons, String.toList_append] at hrest ⊢
    exact .cons (written_compact item) (.inl rfl) hrest

end

mutual

theorem written_fill [Display] (l : Layout) (width depth column trail : Nat) :
    Written l (l.fill width depth column trail).toList := by
  match l with
  | .atom content => exact .atom
  | .quoted inner =>
    rw [fill, String.toList_append]
    exact .quoted (written_fill inner width depth (column + 1) trail)
  | .sequence kind items =>
    rw [fill]
    -- the items stay on one line or are broken, and are written out either way
    split
    · have hitems := writtenAll_compactItems items
      simpa using (Written.sequence : _ → Written (.sequence kind items) _) hitems
    · have hitems := writtenAll_fillItems items width (depth + 1)
        (column + Width.ofText kind.opener.toString) (Width.ofText kind.closer.toString + trail)
      simpa using (Written.sequence : _ → Written (.sequence kind items) _) hitems

theorem writtenAll_fillItems [Display] (items : List Layout) (width depth column trail : Nat) :
    WrittenAll items (String.join (fillItems width depth column trail items)).toList := by
  match items with
  | [] => exact .nil
  | [item] =>
    have hitem := written_fill item width depth column trail
    simpa [fillItems] using WrittenAll.single hitem
  | item :: next :: rest =>
    have hitem := written_fill item width depth column 0
    have hrest := writtenAll_fillItems (next :: rest) width depth
      (indentBefore depth next rest) trail
    have hgap : IsSeparator (Doc.newline (indentBefore depth next rest)).toList :=
      .inr ⟨indentBefore depth next rest, by rw [Doc.newline, String.toList_ofList]⟩
    simpa [fillItems] using WrittenAll.cons hitem hgap hrest

end

theorem written_simple (l : Layout) : Written l l.simple.toList := by
  rw [simple_eq_compact]
  exact written_compact l

theorem written_pretty [Display] (l : Layout) (width : Nat) :
    Written l (l.pretty width).toList := by
  rw [pretty_eq_fill]
  exact written_fill l width 0 0 0

end SExpr.Layout
