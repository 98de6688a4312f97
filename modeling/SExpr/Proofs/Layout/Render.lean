import SExpr.Proofs.Layout.Document
import SExpr.Proofs.Layout.Fill
import SExpr.Proofs.Printer.Doc

/-! # Rendering a layout

The stack machine writes each layout as `fill` does, wherever the layout stands on the
stack: on one line (`render_doc_flat`), if the lookahead says that it fits, which is a
matter of its width (`fits_doc`), and else with its items on lines of their own
(`render_doc`). -/

namespace SExpr.Layout

open Doc

variable [Display] {width : Nat} {rest : List Command}

/-! ## What fits -/

theorem bounded_of_fits_eq {docs after : List Doc} {columns : Nat}
    (h : Bounded width true after rest)
    (heq : ∀ pos, fits width true pos docs rest = fits width true (pos + columns) after rest) :
    Bounded width true docs rest := by
  intro pos hfits
  rw [heq] at hfits
  exact Nat.le_of_add_right_le (h _ hfits)

mutual

/-- To look ahead over a layout on one line is to add up its columns. -/
theorem fits_doc (l : Layout) {after : List Doc} (h : Bounded width true after rest)
    (pos : Nat) :
    fits width true pos (l.doc :: after) rest =
      fits width true (pos + l.flatWidth) after rest := by
  match l with
  | .atom content => exact h.fits_ofText content
  | .quoted inner =>
    have hinner := bounded_of_fits_eq h (fits_doc inner h)
    rw [doc_quoted, fits_text_cat, hinner.fits_text, fits_doc inner h, Width.ofText_apostrophe,
      flatWidth, Nat.add_assoc]
  | .sequence kind items =>
    have hcloser : Bounded width true (.text kind.closer.toString :: after) rest :=
      bounded_text _ _ _
    have hitems := fits_items items hcloser
    rw [doc, fits_bracketed, (bounded_of_fits_eq hcloser hitems).fits_text, hitems, h.fits_text,
      flatWidth, Nat.add_assoc, Nat.add_assoc, Nat.add_assoc]

theorem fits_items (items : List Layout) {after : List Doc}
    (h : Bounded width true after rest) (pos : Nat) :
    fits width true pos (intersperse .line (docs items) :: after) rest =
      fits width true (pos + flatWidthItems items) after rest := by
  match items with
  | [] =>
    rw [docs, intersperse, fits]
    rfl
  | [item] => exact fits_doc item h pos
  | item :: next :: items =>
    -- what is behind the line is looked at as the rest of the items would be
    have hnext : ∀ pos, fits width true pos
        (present next.doc ++ (behindLines (docs items) ++ after)) rest =
        fits width true (pos + flatWidthItems (next :: items)) after rest := fun pos => by
      rw [fits_present, ← fits_intersperse, ← fits_items (next :: items) h, docs]
    have hline : Bounded width true
        (.line :: (present next.doc ++ (behindLines (docs items) ++ after))) rest :=
      bounded_line _ _
    calc fits width true pos (intersperse .line (docs (item :: next :: items)) :: after) rest
      _ = fits width true pos (item.doc ::
            .line :: (present next.doc ++ (behindLines (docs items) ++ after))) rest := by
          rw [docs, fits_intersperse, docs, behindLines, List.cons_append, List.append_assoc]
      _ = fits width true (pos + item.flatWidth + 1)
            (present next.doc ++ (behindLines (docs items) ++ after)) rest := by
          rw [fits_doc item hline, (bounded_of_fits_eq h hnext).fits_line]
      _ = fits width true (pos + flatWidthItems (item :: next :: items)) after rest := by
          rw [hnext, flatWidthItems_cons, Nat.add_assoc, Nat.add_assoc, Nat.add_assoc]

end

/-! ## On one line -/

mutual

theorem render_doc_flat (l : Layout) (out : String) (pos indent : Nat) (rest : List Command) :
    render width out pos (⟨indent, true, l.doc⟩ :: rest) =
      render width (out ++ l.compact) (pos + l.flatWidth) rest := by
  match l with
  | .atom content => exact render_ofText content
  | .quoted inner =>
    rw [doc_quoted, render_text_cat, render_doc_flat inner, Width.ofText_apostrophe, flatWidth,
      compact, Nat.add_assoc, String.append_assoc]
  | .sequence kind items =>
    rw [doc, render_bracketed, render_group, Bool.true_or, render_items_flat items, render,
      flatWidth, compact]
    simp only [Nat.add_assoc, String.append_assoc]

theorem render_items_flat (items : List Layout) (out : String) (pos indent : Nat)
    (rest : List Command) :
    render width out pos (⟨indent, true, intersperse .line (docs items)⟩ :: rest) =
      render width (out ++ " ".intercalate (compactItems items)) (pos + flatWidthItems items)
        rest := by
  match items with
  | [] =>
    rw [docs, intersperse, render]
    simp [compactItems, flatWidthItems]
  | [item] =>
    rw [compactItems, compactItems, String.intercalate_singleton]
    exact render_doc_flat item out pos indent rest
  | item :: next :: items =>
    have hnext := render_items_flat (next :: items) (out ++ item.compact ++ " ")
      (pos + item.flatWidth + 1) indent rest
    calc render width out pos
          (⟨indent, true, intersperse .line (docs (item :: next :: items))⟩ :: rest)
      _ = render width out pos (⟨indent, true, item.doc⟩ :: ⟨indent, true, .line⟩ ::
            (commands indent true (present next.doc ++ behindLines (docs items)) ++ rest)) :=
          render_intersperse _ _
      _ = render width (out ++ item.compact ++ " ") (pos + item.flatWidth + 1)
            (⟨indent, true, intersperse .line (docs (next :: items))⟩ :: rest) := by
          rw [render_doc_flat item, render, render_present, docs, render_intersperse]
      _ = render width (out ++ " ".intercalate (compactItems (item :: next :: items)))
            (pos + flatWidthItems (item :: next :: items)) rest := by
          rw [hnext, intercalate_compactItems_cons, flatWidthItems_cons]
          simp only [Nat.add_assoc, String.append_assoc]

end

/-! ## On several lines -/

omit [Display] in
theorem doc_eq_nil_iff {l : Layout} : l.doc = .nil ↔ l.isBlankAtom = true := by
  cases l with
  | atom content =>
    rw [doc, Doc.ofText, isBlankAtom]
    split <;> simp_all
  | quoted inner => exact iff_of_false (text_cat_ne_nil _ _) Bool.noConfusion
  | sequence kind items =>
    refine iff_of_false ?_ Bool.noConfusion
    rw [doc, PrettyPrinter.bracketed, ofText_toString, ofText_toString,
      cat_of_ne_nil (text_cat_ne_nil _ _) Doc.noConfusion]
    exact Doc.noConfusion

omit [Display] in
/-- A new line is indented for what is written on it. -/
theorem indent_behind_line (next : Layout) (items : List Layout) (depth : Nat) (closer : String)
    (rest : List Command) :
    (commands (depth + 1) false (present next.doc ++ behindLines (docs items)) ++
        ⟨depth, false, .text closer⟩ :: rest).head?.elim (depth + 1) Command.indent =
      indentBefore (depth + 1) next items := by
  by_cases hblank : next.isBlankAtom = true
  · rw [doc_eq_nil_iff.mpr hblank, indentBefore, hblank]
    cases items <;> rfl
  · rw [present_of_ne_nil (mt doc_eq_nil_iff.mp hblank), indentBefore,
      Bool.eq_false_iff.mpr hblank, Bool.and_false]
    rfl

mutual

/-- Behind a layout nothing depends on the column before the next line begins. -/
theorem render_doc (l : Layout) {rest : List Command} {trail : Nat} (h : Trails rest trail)
    (out : String) (pos depth : Nat) :
    render width out pos (⟨depth, false, l.doc⟩ :: rest) =
      render width (out ++ l.fill width depth pos trail) 0 rest := by
  match l with
  | .atom content => exact (render_ofText content).trans (h.render_eq _ _ _)
  | .quoted inner =>
    rw [doc_quoted, render_text_cat, render_doc inner h, Width.ofText_apostrophe, fill,
      String.append_assoc]
  | .sequence kind items =>
    have hitems : fits width true (pos + Width.ofText kind.opener.toString)
        [intersperse .line (docs items)] (⟨depth, false, .text kind.closer.toString⟩ :: rest) =
        true ↔ pos + Width.ofText kind.opener.toString + flatWidthItems items +
          (Width.ofText kind.closer.toString + trail) ≤ width := by
      rw [fits_items items (bounded_closer _ _), h.fits_text_iff]
    rw [doc, render_bracketed, render_group, Bool.false_or, fill]
    by_cases hfits : pos + Width.ofText kind.opener.toString + flatWidthItems items +
        (Width.ofText kind.closer.toString + trail) ≤ width
    · rw [hitems.mpr hfits, render_items_flat, render, h.render_eq _ _ 0, if_pos hfits]
      simp only [String.append_assoc]
    · rw [Bool.eq_false_iff.mpr (mt hitems.mp hfits), render_items items h, render,
        h.render_eq _ _ 0, if_neg hfits]
      simp only [String.append_assoc]

theorem render_items (items : List Layout) {rest : List Command} {trail : Nat}
    (h : Trails rest trail) (out : String) (pos depth : Nat) (closer : String) :
    render width out pos (⟨depth + 1, false, intersperse .line (docs items)⟩ ::
        ⟨depth, false, .text closer⟩ :: rest) =
      render width
        (out ++ String.join (fillItems width (depth + 1) pos (Width.ofText closer + trail) items))
        0 (⟨depth, false, .text closer⟩ :: rest) := by
  have hcloser : Trails (⟨depth, false, .text closer⟩ :: rest) (Width.ofText closer + trail) :=
    h.text
  match items with
  | [] =>
    rw [docs, intersperse, render, fillItems, hcloser.render_eq _ _ 0]
    simp
  | [item] =>
    rw [fillItems, String.join_cons, String.join_nil, String.append_empty]
    exact render_doc item hcloser out pos (depth + 1)
  | item :: next :: items =>
    calc render width out pos (⟨depth + 1, false, intersperse .line (docs (item :: next :: items))⟩
          :: ⟨depth, false, .text closer⟩ :: rest)
      _ = render width out pos (⟨depth + 1, false, item.doc⟩ :: ⟨depth + 1, false, .line⟩ ::
            (commands (depth + 1) false (present next.doc ++ behindLines (docs items)) ++
              ⟨depth, false, .text closer⟩ :: rest)) := render_intersperse _ _
      _ = render width (out ++ item.fill width (depth + 1) pos 0 ++
              newline (indentBefore (depth + 1) next items))
            (indentBefore (depth + 1) next items)
            (⟨depth + 1, false, intersperse .line (docs (next :: items))⟩ ::
              ⟨depth, false, .text closer⟩ :: rest) := by
          rw [render_doc item .line, render, indent_behind_line, render_present, docs,
            render_intersperse]
      _ = _ := by
          rw [render_items (next :: items) h, fillItems]
          simp only [String.join_cons, String.append_assoc]

end

/-- Pretty printing is what `fill` says. -/
theorem pretty_eq_fill (width : Nat) (l : Layout) : l.pretty width = l.fill width 0 0 0 := by
  rw [pretty_eq_render, render_doc l .nil, render]
  exact String.empty_append

end SExpr.Layout
