import SExpr.Proofs.Layout.Written
import SExpr.Proofs.Print.Layout

/-! # Pretty texts against compact texts

`glyphs` is the text of a layout with the places between neighbouring items marked.
Compact printing puts a space at each of these places. Pretty printing puts a space
or a new line with its indentation there, and does nothing else: no character of an
atom, no bracket and no apostrophe is touched. -/

namespace SExpr

namespace Layout

/-- A character of a text, or a place between two items of a sequence. -/
inductive Glyph
  | char (c : Char)
  | separator
deriving DecidableEq

/-- The character that compact printing writes. -/
def Glyph.flat : Glyph → Char
  | .char c => c
  | .separator => ' '

mutual

/-- The characters of a layout in order, and the places between its items. -/
def glyphs : Layout → List Glyph
  | .atom content => content.toList.map .char
  | .quoted inner => .char '\'' :: inner.glyphs
  | .sequence kind items => .char kind.opener :: (glyphsAll items ++ [.char kind.closer])

def glyphsAll : List Layout → List Glyph
  | [] => []
  | [item] => item.glyphs
  | item :: next :: rest => item.glyphs ++ .separator :: glyphsAll (next :: rest)

end

/-- The text has the characters of the glyphs, and one separator at each place for
one. -/
inductive Fills : List Glyph → List Char → Prop
  | nil : Fills [] []
  | char {c : Char} {gs : List Glyph} {text : List Char} :
      Fills gs text → Fills (.char c :: gs) (c :: text)
  | separator {gap : List Char} {gs : List Glyph} {text : List Char} :
      IsSeparator gap → Fills gs text → Fills (.separator :: gs) (gap ++ text)

theorem Fills.append {gs hs : List Glyph} {text others : List Char} (h : Fills gs text)
    (h' : Fills hs others) : Fills (gs ++ hs) (text ++ others) := by
  induction h with
  | nil => exact h'
  | char _ ih => exact ih.char
  | separator hgap _ ih =>
    rw [List.append_assoc]
    exact ih.separator hgap

theorem fills_chars (text : List Char) : Fills (text.map .char) text := by
  induction text with
  | nil => exact .nil
  | cons c rest ih => exact ih.char

mutual

theorem Written.fills {l : Layout} {text : List Char} (h : Written l text) :
    Fills l.glyphs text := by
  match h with
  | .atom => exact fills_chars _
  | .quoted hinner => exact hinner.fills.char
  | .sequence hitems => exact (hitems.fills.append (fills_chars [_])).char

theorem WrittenAll.fills {items : List Layout} {text : List Char} (h : WrittenAll items text) :
    Fills (glyphsAll items) text := by
  match h with
  | .nil => exact .nil
  | .single hitem => exact hitem.fills
  | .cons hitem hgap hrest =>
    rw [List.append_assoc]
    exact hitem.fills.append (hrest.fills.separator hgap)

end

mutual

theorem toList_compact (l : Layout) : l.compact.toList = l.glyphs.map Glyph.flat := by
  match l with
  | .atom content => simp [compact, glyphs, Function.comp_def, Glyph.flat]
  | .quoted inner =>
    rw [compact, String.toList_append, toList_compact inner]
    rfl
  | .sequence kind items =>
    rw [compact, String.toList_append, String.toList_append, toList_compactItems items]
    simp [glyphs, Glyph.flat]

theorem toList_compactItems (items : List Layout) :
    (" ".intercalate (compactItems items)).toList = (glyphsAll items).map Glyph.flat := by
  match items with
  | [] => rfl
  | [item] => simpa [compactItems, glyphsAll] using toList_compact item
  | item :: next :: rest =>
    have hitem := toList_compact item
    have hrest := toList_compactItems (next :: rest)
    simp only [compactItems, String.intercalate_cons_cons, String.toList_append] at hrest ⊢
    rw [hitem, hrest]
    simp [glyphsAll, Glyph.flat]

end
end Layout

/-- Where compact printing succeeds, pretty printing does, at any width and with any
choice of names, and both texts come from the same glyphs: they differ in some of
the separators only. -/
theorem printPretty_of_printCompact [Display] {w : Writer} {v : Value} {compact : String}
    (h : w.printCompact v = .ok compact) :
    ∃ l pretty, v.layout w = .ok l ∧ w.printPretty v = .ok pretty ∧
      compact.toList = l.glyphs.map Layout.Glyph.flat ∧ Layout.Fills l.glyphs pretty.toList := by
  rw [Writer.printCompact_eq] at h
  unfold Writer.printPretty
  cases hl : v.layout w with
  | error e =>
    rw [hl] at h
    contradiction
  | ok l =>
    rw [hl] at h
    cases h
    exact ⟨l, _, rfl, rfl, l.toList_compact, (l.written_pretty _).fills⟩

/-- The separators around an empty atom may become new lines, the escaped space of a
symbol stays, and the two lists break apart at one column more for each level. -/
theorem printPretty_of_printCompact_narrow :
    Writer.printCompact ⟨.default, { width := 9, nilName := "" }⟩
        (.list [.symbol "a b", .quoted (.tuple []), .nil, .list [.text "c\nd", .int (-1)]]) =
      .ok "(a\\ b '()  (\"c\\nd\" -1))" ∧
    Writer.printPretty ⟨.default, { width := 9, nilName := "" }⟩
        (.list [.symbol "a b", .quoted (.tuple []), .nil, .list [.text "c\nd", .int (-1)]]) =
      .ok "(a\\ b\n '()\n \n (\"c\\nd\"\n  -1))" ∧
    ∃ gs, "(a\\ b '()  (\"c\\nd\" -1))".toList = gs.map Layout.Glyph.flat ∧
      Layout.Fills gs "(a\\ b\n '()\n \n (\"c\\nd\"\n  -1))".toList := by
  have hcompact : Writer.printCompact ⟨.default, { width := 9, nilName := "" }⟩
      (.list [.symbol "a b", .quoted (.tuple []), .nil, .list [.text "c\nd", .int (-1)]]) =
      .ok "(a\\ b '()  (\"c\\nd\" -1))" := rfl
  have hpretty : Writer.printPretty ⟨.default, { width := 9, nilName := "" }⟩
      (.list [.symbol "a b", .quoted (.tuple []), .nil, .list [.text "c\nd", .int (-1)]]) =
      .ok "(a\\ b\n '()\n \n (\"c\\nd\"\n  -1))" := (Writer.printPretty_eq _ _).trans rfl
  obtain ⟨l, pretty, -, hpretty', hchars, hfills⟩ := printPretty_of_printCompact hcompact
  obtain rfl := Except.ok.inj (hpretty.symm.trans hpretty')
  exact ⟨hcompact, hpretty, l.glyphs, hchars, hfills⟩

end SExpr
