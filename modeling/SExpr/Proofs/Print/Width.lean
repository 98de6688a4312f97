import SExpr.Proofs.Layout.Arrangement
import SExpr.Proofs.Print.Layout
import SExpr.Proofs.Print.Tokens

/-! # Pretty printing within a width

A pretty text is an arrangement of the layout of the value: `printPretty_arranged` says
which one, sequence by sequence. A line that is too wide has no space at which it could
have been broken, and what fits on one line as a whole is written there. -/

namespace SExpr

namespace Writer

/-- The names that stand for values are written as something. -/
structure Named (w : Writer) : Prop where
  nilName : w.options.nilName ≠ ""
  trueName : w.options.trueName ≠ ""
  falseName : w.options.falseName ≠ ""

variable {w : Writer} {l : Layout}

theorem ofList_ne_empty {cs : List Char} (h : cs ≠ []) : String.ofList cs ≠ "" := by
  simpa using h

theorem solid_symbol {name : String} (h : w.symbol name = .ok l) : l.Solid := by
  obtain ⟨hname, rfl⟩ := symbol_eq_ok_iff.mp h
  have hchars : name.toList ≠ [] := by simpa using hname
  have hspelling : Atom.Spelling (w.options.readtable w.brackets) name.toList
      (Atom.encode (w.options.readtable w.brackets) name.toList) :=
    Atom.spelling_encode (fun _ hends => hends) name.toList
  obtain ⟨c, rest, hencode, -⟩ := hspelling.exists_head hchars
  exact ofList_ne_empty (hencode ▸ List.cons_ne_nil c rest)

theorem solid_string (content : String) : (string content).Solid :=
  ofList_ne_empty (List.cons_ne_nil _ _)

end Writer

mutual

/-- No atom of a printed value is written as nothing. -/
theorem Value.solid_layout {w : Writer} (hw : w.Named) {v : Value} {l : Layout}
    (h : v.layout w = .ok l) : l.Solid := by
  match v with
  | .symbol name => exact Writer.solid_symbol h
  | .literal content =>
    cases h
    exact Writer.solid_string content
  | .text content =>
    rw [layout, Writer.text] at h
    split at h
    · cases h
      exact Writer.solid_string content
    · exact Writer.solid_symbol h
  | .int n =>
    cases h
    exact Writer.ofList_ne_empty (Writer.ne_nil_of_read? (Number.read?_intText n))
  | .float x =>
    obtain ⟨hfinite, rfl⟩ := Writer.float_eq_ok_iff.mp h
    exact Writer.ofList_ne_empty (Writer.ne_nil_of_read? (Binary64.read?_text hfinite))
  | .bool b =>
    cases h
    cases b with
    | false => exact hw.falseName
    | true => exact hw.trueName
  | .nil =>
    cases h
    exact hw.nilName
  | .quoted inner =>
    obtain ⟨l', hinner, rfl⟩ := layout_quoted_eq_ok_iff.mp h
    exact (solid_layout hw hinner : l'.Solid)
  | .sequence kind items =>
    obtain ⟨-, ls, hls, rfl⟩ := layout_sequence_eq_ok_iff.mp h
    exact (solidAll_layouts hw hls : Layout.SolidAll ls)
  | .tuple items =>
    obtain ⟨ls, hls, rfl⟩ := layout_tuple_eq_ok_iff.mp h
    exact (solidAll_layouts hw hls : Layout.SolidAll ls)

theorem Value.solidAll_layouts {w : Writer} (hw : w.Named) {items : List Value} {ls : List Layout}
    (h : Value.layouts w items = .ok ls) : Layout.SolidAll ls := by
  match items with
  | [] =>
    cases h
    trivial
  | v :: rest =>
    obtain ⟨l, hl, ls', hls', rfl⟩ := layouts_cons_eq_ok_iff.mp h
    exact ⟨solid_layout hw hl, solidAll_layouts hw hls'⟩

end

open Layout

/-- Pretty text is an arrangement of the layout: between the items of a sequence are only
spaces, if it is flat, or only new lines, each indented by one column for every sequence
around it. A sequence in a flat one is flat; and one is flat exactly if the column behind
its opener, its items on one line and what follows them on that line fit. So a line that is
too wide has no space between items, and a value that fits on one line is on one line.

Columns are counted text by text, on any display. Where texts are as wide as their parts
these are the widths of whole lines. -/
theorem printPretty_arranged [Display] {w : Writer} {v : Value} {text : String}
    (hw : w.Named) (h : w.printPretty v = .ok text) :
    ∃ a : Arrangement, v.layout w = .ok a.layout ∧ text = written (a.pieces 0) ∧
      (∀ before around kind flat items after,
        a.Occurs before around (.sequence kind flat items) after →
        a.pieces 0 =
          before ++ (Arrangement.sequence kind flat items).pieces around.length ++ after ∧
        ((∃ s ∈ around, s.isFlat = true) → flat = true) ∧
        (flat = true ↔ column (before ++ [.text kind.opener.toString]) +
          flatWidthItems (Arrangement.layouts items) +
          lineWidth (.text kind.closer.toString :: after) ≤ w.options.width)) ∧
      (∀ line ∈ lines (a.pieces 0), w.options.width < column line → .space ∉ line) ∧
      (a.layout.flatWidth ≤ w.options.width → w.printCompact v = .ok text) ∧
      (Display.Additive →
        (∀ row, (∀ p ∈ row, p.isNewline = false) → column row = Width.ofText (written row) ∧
          ∀ indent, column (.newline indent :: row) = indent + Width.ofText (written row)) ∧
        (∀ items, flatWidthItems items = Width.ofText (" ".intercalate (compactItems items))) ∧
        ∀ compact, w.printCompact v = .ok compact →
          Width.ofText compact ≤ w.options.width → text = compact) := by
  rw [Writer.printPretty_eq] at h
  rw [Writer.printCompact_eq]
  cases hl : v.layout w with
  | error e =>
    rw [hl] at h
    contradiction
  | ok l =>
    rw [hl] at h
    cases h
    have htext := fill_eq_written (Value.solid_layout hw hl) w.options.width 0 0 0
    have hcompact : l.flatWidth ≤ w.options.width →
        l.compact = l.fill w.options.width 0 0 0 := fun hfits => by
      rw [htext, arrange_of_le (by omega), written_flat]
    have hlayout := layout_arrange l w.options.width 0 0 0
    refine ⟨l.arrange w.options.width 0 0 0, by rw [hlayout], htext, ?_, ?_, ?_, ?_⟩
    · intro before around kind flat items after hoccurs
      exact ⟨hoccurs.pieces_eq, hoccurs.arranged.flat_iff⟩
    · intro line hline hwide
      exact (spacesFit_arrange l w.options.width 0 0 []).not_mem_lines hline hwide
    · intro hfits
      rw [hlayout] at hfits
      exact congrArg Except.ok (hcompact hfits)
    · intro hwidth
      refine ⟨fun row hrow => ⟨column_eq_ofText hwidth hrow, fun indent => ?_⟩,
        flatWidthItems_eq_ofText hwidth, fun compact hc hfits => ?_⟩
      · rw [← column_eq_ofText hwidth hrow]
        exact foldl_advance hrow indent
      · cases hc
        rw [← flatWidth_eq_ofText hwidth] at hfits
        exact (hcompact hfits).symm

/-- The first two items do not fit side by side, as one of them is two columns wide; the
line behind them is as wide as it may be, and the list on it stays whole. -/
theorem printPretty_arranged_let :
    Writer.Named ⟨.default, { width := 12 }⟩ ∧ Display.Additive ∧
    Writer.printPretty ⟨.default, { width := 12 }⟩
        (.list [.symbol "let", .list [.list [.symbol "日", .quoted (.list [.int 1, .int 2])],
          .tuple [.symbol "y", .symbol "語", .symbol "bc"]], .nil]) =
      .ok "(let\n ((日\n   '(1 2))\n  (y 語 bc))\n nil)" ∧
    ∃ a : Arrangement,
      "(let\n ((日\n   '(1 2))\n  (y 語 bc))\n nil)" = written (a.pieces 0) ∧
      ∀ line ∈ lines (a.pieces 0), 12 < column line → .space ∉ line := by
  have hnamed : Writer.Named ⟨.default, { width := 12 }⟩ := ⟨by decide, by decide, by decide⟩
  have hpretty : Writer.printPretty ⟨.default, { width := 12 }⟩
      (.list [.symbol "let", .list [.list [.symbol "日", .quoted (.list [.int 1, .int 2])],
        .tuple [.symbol "y", .symbol "語", .symbol "bc"]], .nil]) =
      .ok "(let\n ((日\n   '(1 2))\n  (y 語 bc))\n nil)" := (Writer.printPretty_eq _ _).trans rfl
  obtain ⟨a, -, htext, -, hlines, -, -⟩ := printPretty_arranged hnamed hpretty
  exact ⟨hnamed, Width.additive_blocks, hpretty, a, htext, hlines⟩

end SExpr
