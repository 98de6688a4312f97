import SExpr.Proofs.Layout.Fill
import SExpr.Proofs.Layout.Line

/-! # Flat and broken sequences

An arrangement of a layout says of each sequence whether a space or a new line is between
its items. `Layout.arrange` decides this as pretty printing does, and `fill_eq_written` says
that its arrangement is what is written. Wherever a part of it occurs, it was arranged for
the column that it begins in and for what follows on its line (`Occurs.arranged`). -/

namespace SExpr

/-- A layout and, for each sequence, whether all its items are on one line. -/
inductive Arrangement
  | atom (content : String)
  | quoted (inner : Arrangement)
  | sequence (kind : Bracket) (flat : Bool) (items : List Arrangement)

namespace Arrangement

open Layout (Piece)

mutual

/-- What is arranged. -/
def layout : Arrangement → Layout
  | .atom content => .atom content
  | .quoted inner => .quoted inner.layout
  | .sequence kind _ items => .sequence kind (layouts items)

def layouts : List Arrangement → List Layout
  | [] => []
  | item :: rest => item.layout :: layouts rest

end

/-- What is between two items of a sequence that is the `depth`th around them: a space, or
a new line indented by one column for each of these sequences. -/
def separator (flat : Bool) (depth : Nat) : Piece :=
  if flat then .space else .newline depth

mutual

/-- The text of an arrangement inside `depth` sequences. -/
def pieces (depth : Nat) : Arrangement → List Piece
  | .atom content => [.text content]
  | .quoted inner => .text "'" :: inner.pieces depth
  | .sequence kind flat items =>
    .text kind.opener.toString ::
      (piecesAll flat (depth + 1) items ++ [.text kind.closer.toString])

def piecesAll (flat : Bool) (depth : Nat) : List Arrangement → List Piece
  | [] => []
  | [item] => item.pieces depth
  | item :: next :: rest =>
    item.pieces depth ++ separator flat depth :: piecesAll flat depth (next :: rest)

end

/-- Items with a separator behind each. -/
def piecesBefore (flat : Bool) (depth : Nat) (items : List Arrangement) : List Piece :=
  items.flatMap fun item => item.pieces depth ++ [separator flat depth]

/-- Items with a separator before each. -/
def piecesAfter (flat : Bool) (depth : Nat) (items : List Arrangement) : List Piece :=
  items.flatMap fun item => separator flat depth :: item.pieces depth

/-- A sequence that has items to separate, and separates them by spaces. -/
def isFlat : Arrangement → Bool
  | .sequence _ flat items => flat && 2 ≤ items.length
  | _ => false

/-- In `a` the part `b` occurs inside the sequences `around`, the innermost first, with the
text `before` before it and the text `after` behind it. -/
inductive Occurs (a : Arrangement) :
    List Piece → List Arrangement → Arrangement → List Piece → Prop
  | whole : Occurs a [] [] a []
  | quoted {before after : List Piece} {around : List Arrangement} {inner : Arrangement} :
      Occurs a before around (.quoted inner) after →
      Occurs a (before ++ [.text "'"]) around inner after
  | item {before after : List Piece} {around first rest : List Arrangement} {kind : Bracket}
      {flat : Bool} {item : Arrangement} :
      Occurs a before around (.sequence kind flat (first ++ item :: rest)) after →
      Occurs a
        (before ++ .text kind.opener.toString :: piecesBefore flat (around.length + 1) first)
        (.sequence kind flat (first ++ item :: rest) :: around) item
        (piecesAfter flat (around.length + 1) rest ++ .text kind.closer.toString :: after)

/-! ## Parts of an arrangement -/

variable {flat : Bool} {depth : Nat}

theorem piecesAll_cons (item : Arrangement) (rest : List Arrangement) :
    piecesAll flat depth (item :: rest) = item.pieces depth ++ piecesAfter flat depth rest := by
  induction rest generalizing item with
  | nil => rw [piecesAll, piecesAfter, List.flatMap_nil, List.append_nil]
  | cons next rest ih => rw [piecesAll, ih, piecesAfter, piecesAfter, List.flatMap_cons]; rfl

theorem piecesAll_append (first rest : List Arrangement) (item : Arrangement) :
    piecesAll flat depth (first ++ item :: rest) =
      piecesBefore flat depth first ++ piecesAll flat depth (item :: rest) := by
  induction first with
  | nil => rfl
  | cons head first ih =>
    obtain ⟨next, others, hcons⟩ := List.exists_cons_of_ne_nil
      (List.append_ne_nil_of_right_ne_nil first (List.cons_ne_nil item rest))
    rw [piecesBefore, List.flatMap_cons, List.append_assoc, List.append_assoc, List.cons_append,
      hcons, piecesAll, ← hcons, ih]
    rfl

/-- The text around a part and its own text are the whole. -/
theorem Occurs.pieces_eq {a b : Arrangement} {before after : List Piece}
    {around : List Arrangement} (h : a.Occurs before around b after) :
    a.pieces 0 = before ++ b.pieces around.length ++ after := by
  induction h with
  | whole => rw [List.append_nil]; rfl
  | quoted _ ih =>
    rw [ih, pieces]
    simp
  | item _ ih =>
    rw [ih, pieces, piecesAll_append, piecesAll_cons]
    simp

end Arrangement

namespace Layout

mutual

/-- Everything on one line. -/
def flat : Layout → Arrangement
  | .atom content => .atom content
  | .quoted inner => .quoted inner.flat
  | .sequence kind items => .sequence kind true (flatAll items)

def flatAll : List Layout → List Arrangement
  | [] => []
  | item :: rest => item.flat :: flatAll rest

end

/-! ## One line -/

theorem flatAll_eq_map (items : List Layout) : flatAll items = items.map flat := by
  induction items with
  | nil => rfl
  | cons item rest ih => rw [flatAll, ih, List.map_cons]

mutual

theorem layout_flat (l : Layout) : l.flat.layout = l := by
  match l with
  | .atom _ => rfl
  | .quoted inner => exact congrArg Layout.quoted (layout_flat inner)
  | .sequence kind items => exact congrArg (Layout.sequence kind) (layouts_flatAll items)

theorem layouts_flatAll (items : List Layout) : Arrangement.layouts (flatAll items) = items := by
  match items with
  | [] => rfl
  | item :: rest => rw [flatAll, Arrangement.layouts, layout_flat item, layouts_flatAll rest]

end

theorem pieces_flatAll_cons (item next : Layout) (rest : List Layout) (flat : Bool) (depth : Nat) :
    Arrangement.piecesAll flat depth (flatAll (item :: next :: rest)) =
      item.flat.pieces depth ++ Arrangement.separator flat depth ::
        Arrangement.piecesAll flat depth (flatAll (next :: rest)) := rfl

mutual

theorem isNewline_flat (l : Layout) (depth : Nat) :
    ∀ p ∈ l.flat.pieces depth, p.isNewline = false := by
  match l with
  | .atom content => exact List.forall_mem_singleton.mpr rfl
  | .quoted inner => exact List.forall_mem_cons.mpr ⟨rfl, isNewline_flat inner depth⟩
  | .sequence kind items =>
    have hitems := isNewline_flatAll items (depth + 1)
    rw [flat, Arrangement.pieces, List.forall_mem_cons, List.forall_mem_append]
    exact ⟨rfl, hitems, List.forall_mem_singleton.mpr rfl⟩

theorem isNewline_flatAll (items : List Layout) (depth : Nat) :
    ∀ p ∈ Arrangement.piecesAll true depth (flatAll items), p.isNewline = false := by
  match items with
  | [] => exact fun p hp => absurd hp List.not_mem_nil
  | [item] => exact isNewline_flat item depth
  | item :: next :: rest =>
    rw [pieces_flatAll_cons, List.forall_mem_append, List.forall_mem_cons]
    exact ⟨isNewline_flat item depth, rfl, isNewline_flatAll (next :: rest) depth⟩

end

mutual

/-- The depth has no part in a text on one line. -/
theorem written_flat (l : Layout) (depth : Nat) : written (l.flat.pieces depth) = l.compact := by
  match l with
  | .atom content => exact written_text content
  | .quoted inner =>
    rw [flat, Arrangement.pieces, written_cons, written_flat inner]
    rfl
  | .sequence kind items =>
    rw [flat, Arrangement.pieces, written_cons, written_append, written_flatAll items,
      written_text, compact, String.append_assoc]
    rfl

theorem written_flatAll (items : List Layout) (depth : Nat) :
    written (Arrangement.piecesAll true depth (flatAll items)) =
      " ".intercalate (compactItems items) := by
  match items with
  | [] => rfl
  | [item] =>
    rw [compactItems, compactItems, String.intercalate_singleton]
    exact written_flat item depth
  | item :: next :: rest =>
    rw [pieces_flatAll_cons, written_append, written_cons, written_flat item,
      written_flatAll (next :: rest), intercalate_compactItems_cons, String.append_assoc]
    rfl

end

/-! ## The arrangement of a layout -/

variable [Display]

mutual

/-- The arrangement of a layout that begins in column `column` inside `depth` sequences and
has `trail` more columns behind it on the line that it ends on. -/
def arrange (width depth column trail : Nat) : Layout → Arrangement
  | .atom content => .atom content
  | .quoted inner => .quoted (inner.arrange width depth (column + 1) trail)
  | .sequence kind items =>
    let start := column + Width.ofText kind.opener.toString
    let trail := Width.ofText kind.closer.toString + trail
    if start + flatWidthItems items + trail ≤ width then .sequence kind true (flatAll items)
    else .sequence kind false (arrangeAll width (depth + 1) start trail items)

def arrangeAll (width depth column trail : Nat) : List Layout → List Arrangement
  | [] => []
  | [item] => [item.arrange width depth column trail]
  | item :: next :: rest =>
    item.arrange width depth column 0 :: arrangeAll width depth depth trail (next :: rest)

end

mutual

theorem column_flat (l : Layout) (depth : Nat) : column (l.flat.pieces depth) = l.flatWidth := by
  match l with
  | .atom content => exact Nat.zero_add _
  | .quoted inner =>
    rw [flat, Arrangement.pieces, ← List.singleton_append, column_append,
      foldl_advance (isNewline_flat inner depth), column_flat inner, flatWidth]
    exact congrArg (· + inner.flatWidth) ((Nat.zero_add _).trans Width.ofText_apostrophe)
  | .sequence kind items =>
    rw [flat, Arrangement.pieces, ← List.singleton_append, column_append, List.foldl_append,
      foldl_advance (isNewline_flatAll items (depth + 1)), column_flatAll items, flatWidth]
    exact congrArg (· + flatWidthItems items + Width.ofText kind.closer.toString) (Nat.zero_add _)

theorem column_flatAll (items : List Layout) (depth : Nat) :
    column (Arrangement.piecesAll true depth (flatAll items)) = flatWidthItems items := by
  match items with
  | [] => rfl
  | [item] => exact column_flat item depth
  | item :: next :: rest =>
    rw [pieces_flatAll_cons, column_append, column_flat item, List.foldl_cons,
      foldl_advance (isNewline_flatAll (next :: rest) depth), column_flatAll (next :: rest)]
    rfl

end

theorem arrange_sequence (kind : Bracket) (items : List Layout) (width depth col trail : Nat) :
    (Layout.sequence kind items).arrange width depth col trail =
      if col + (Layout.sequence kind items).flatWidth + trail ≤ width then
        .sequence kind true (flatAll items)
      else .sequence kind false
        (arrangeAll width (depth + 1) (col + Width.ofText kind.opener.toString)
          (Width.ofText kind.closer.toString + trail) items) := by
  have hwidth : col + (Layout.sequence kind items).flatWidth + trail =
      col + Width.ofText kind.opener.toString + flatWidthItems items +
        (Width.ofText kind.closer.toString + trail) := by
    rw [flatWidth]
    omega
  rw [arrange, hwidth]

/-- Where texts are as wide as their parts, a layout is as wide as its compact text. -/
theorem flatWidth_eq_ofText (h : Display.Additive) (l : Layout) :
    l.flatWidth = Width.ofText l.compact := by
  rw [← column_flat l 0, column_eq_ofText h (isNewline_flat l 0), written_flat]

theorem flatWidthItems_eq_ofText (h : Display.Additive) (items : List Layout) :
    flatWidthItems items = Width.ofText (" ".intercalate (compactItems items)) := by
  rw [← column_flatAll items 0, column_eq_ofText h (isNewline_flatAll items 0), written_flatAll]

/-- What fits on its line stays there. -/
theorem arrange_of_le {width depth col trail : Nat} {l : Layout}
    (h : col + l.flatWidth + trail ≤ width) : l.arrange width depth col trail = l.flat := by
  match l with
  | .atom _ => rfl
  | .quoted inner =>
    rw [flatWidth, ← Nat.add_assoc] at h
    exact congrArg Arrangement.quoted (arrange_of_le h)
  | .sequence kind items =>
    rw [arrange_sequence, if_pos h]
    rfl

mutual

theorem layout_arrange (l : Layout) (width depth col trail : Nat) :
    (l.arrange width depth col trail).layout = l := by
  match l with
  | .atom _ => rfl
  | .quoted inner => exact congrArg Layout.quoted (layout_arrange inner width depth (col + 1) trail)
  | .sequence kind items =>
    rw [arrange]
    split
    · exact congrArg (Layout.sequence kind) (layouts_flatAll items)
    · exact congrArg (Layout.sequence kind) (layouts_arrangeAll items width _ _ _)

theorem layouts_arrangeAll (items : List Layout) (width depth col trail : Nat) :
    Arrangement.layouts (arrangeAll width depth col trail items) = items := by
  match items with
  | [] => rfl
  | [item] => exact congrArg (· :: []) (layout_arrange item width depth col trail)
  | item :: next :: rest =>
    rw [arrangeAll, Arrangement.layouts, layout_arrange item, layouts_arrangeAll (next :: rest)]

end

/-! ## Its text -/

/-- The items of a broken sequence are on lines of their own. -/
theorem piecesAll_arrangeAll (item next : Layout) (rest : List Layout)
    (width depth col trail : Nat) :
    Arrangement.piecesAll false depth (arrangeAll width depth col trail (item :: next :: rest)) =
      (item.arrange width depth col 0).pieces depth ++ .newline depth ::
        Arrangement.piecesAll false depth (arrangeAll width depth depth trail (next :: rest)) := by
  cases rest <;> rfl

mutual

/-- The arrangement is what `fill` writes. -/
theorem fill_eq_written {l : Layout} (h : l.Solid) (width depth col trail : Nat) :
    l.fill width depth col trail = written ((l.arrange width depth col trail).pieces depth) := by
  match l with
  | .atom content => exact (written_text content).symm
  | .quoted inner =>
    rw [fill, arrange, Arrangement.pieces, written_cons, fill_eq_written (l := inner) h]
    rfl
  | .sequence kind items =>
    have hitems : SolidAll items := h
    rw [fill, arrange]
    split
    · rw [Arrangement.pieces, written_cons, written_append, written_flatAll, written_text,
        String.append_assoc]
      rfl
    · rw [Arrangement.pieces, written_cons, written_append, ← join_fillItems hitems,
        written_text, String.append_assoc]
      rfl

theorem join_fillItems {items : List Layout} (h : SolidAll items) (width depth col trail : Nat) :
    String.join (fillItems width depth col trail items) =
      written (Arrangement.piecesAll false depth (arrangeAll width depth col trail items)) := by
  match items with
  | [] => rfl
  | [item] =>
    rw [fillItems, String.join_cons, String.join_nil, String.append_empty]
    exact fill_eq_written h.1 width depth col trail
  | item :: next :: rest =>
    rw [fillItems, indentBefore_of_solid h.2.1, piecesAll_arrangeAll, written_append, written_cons,
      ← fill_eq_written h.1, ← join_fillItems h.2]
    simp only [String.join_cons]
    rfl

end

/-! ## Its lines -/

mutual

/-- A space is only written where its line fits. -/
theorem spacesFit_arrange (l : Layout) (width depth col : Nat) (after : List Piece) :
    SpacesFit width col ((l.arrange width depth col (lineWidth after)).pieces depth) after := by
  -- a layout that fits is on one line, and only one that does not has to be taken apart
  by_cases hfits : col + l.flatWidth + lineWidth after ≤ width
  · rw [arrange_of_le hfits]
    exact spacesFit_of_le (isNewline_flat l depth) (by rwa [column_flat])
  · match l with
    | .atom content => exact ⟨Piece.noConfusion, trivial⟩
    | .quoted inner =>
      have hinner := spacesFit_arrange inner width depth (col + 1) after
      rw [← Width.ofText_apostrophe] at hinner
      exact ⟨Piece.noConfusion, hinner⟩
    | .sequence kind items =>
      have hitems := spacesFit_arrangeAll items width (depth + 1)
        (col + Width.ofText kind.opener.toString) (.text kind.closer.toString :: after)
      rw [lineWidth_cons rfl, Piece.advance, Nat.zero_add] at hitems
      rw [arrange_sequence, if_neg hfits]
      exact ⟨Piece.noConfusion, spacesFit_append.mpr ⟨hitems, Piece.noConfusion, trivial⟩⟩

theorem spacesFit_arrangeAll (items : List Layout) (width depth col : Nat) (after : List Piece) :
    SpacesFit width col
      (Arrangement.piecesAll false depth (arrangeAll width depth col (lineWidth after) items))
      after := by
  match items with
  | [] => trivial
  | [item] => exact spacesFit_arrange item width depth col after
  | item :: next :: rest =>
    rw [piecesAll_arrangeAll, spacesFit_append]
    refine ⟨?_, Piece.noConfusion, spacesFit_arrangeAll (next :: rest) width depth depth after⟩
    rw [← lineWidth_newline depth]
    exact spacesFit_arrange item width depth col _

end

/-! ## Its parts -/

theorem exists_of_arrange_eq_quoted {l : Layout} {width depth col trail : Nat} {b : Arrangement}
    (h : l.arrange width depth col trail = .quoted b) :
    ∃ inner, l = .quoted inner ∧ b = inner.arrange width depth (col + 1) trail := by
  have hl : l = .quoted b.layout := by rw [← layout_arrange l width depth col trail, h]; rfl
  subst hl
  exact ⟨b.layout, rfl, (Arrangement.quoted.inj h).symm⟩

/-- A sequence is flat exactly if it fits with what follows it. -/
theorem exists_of_arrange_eq_sequence {l : Layout} {width depth col trail : Nat} {kind : Bracket}
    {flat : Bool} {items : List Arrangement}
    (h : l.arrange width depth col trail = .sequence kind flat items) :
    ∃ ls, l = .sequence kind ls ∧ Arrangement.layouts items = ls ∧
      if col + l.flatWidth + trail ≤ width then flat = true ∧ items = flatAll ls
      else flat = false ∧ items = arrangeAll width (depth + 1)
        (col + Width.ofText kind.opener.toString)
        (Width.ofText kind.closer.toString + trail) ls := by
  have hl : l = .sequence kind (Arrangement.layouts items) := by
    rw [← layout_arrange l width depth col trail, h]
    rfl
  refine ⟨_, hl, rfl, ?_⟩
  generalize Arrangement.layouts items = ls at hl
  subst hl
  rw [arrange_sequence] at h
  split at h
  · rename_i hfits
    rw [if_pos hfits]
    obtain ⟨-, rfl, rfl⟩ := Arrangement.sequence.inj h
    exact ⟨rfl, rfl⟩
  · rename_i hbroken
    rw [if_neg hbroken]
    obtain ⟨-, rfl, rfl⟩ := Arrangement.sequence.inj h
    exact ⟨rfl, rfl⟩

omit [Display] in
theorem exists_of_flatAll_eq {items : List Layout} {first rest : List Arrangement}
    {item : Arrangement} (h : flatAll items = first ++ item :: rest) :
    ∃ l : Layout, item = l.flat := by
  have hmem : item ∈ items.map flat := by
    rw [← flatAll_eq_map, h]
    exact List.mem_append_cons_self
  obtain ⟨l, -, rfl⟩ := List.mem_map.mp hmem
  exact ⟨l, rfl⟩

/-- The first item begins behind the opener and any other on a line of its own; the last
one has the closer behind it. -/
theorem exists_of_arrangeAll_eq {width depth col trail : Nat} {items : List Layout}
    {first rest : List Arrangement} {item : Arrangement}
    (h : arrangeAll width depth col trail items = first ++ item :: rest) :
    ∃ l, item = arrange width depth (if first = [] then col else depth)
      (if rest = [] then trail else 0) l := by
  match items with
  | [] => simp [arrangeAll] at h
  | [l] =>
    obtain ⟨rfl, hcons⟩ := List.append_eq_singleton_iff.mp h.symm |>.resolve_right (by simp)
    obtain ⟨rfl, rfl⟩ := List.cons.inj hcons
    exact ⟨l, rfl⟩
  | l :: next :: others =>
    rw [arrangeAll] at h
    cases first with
    | nil =>
      obtain ⟨rfl, rfl⟩ := List.cons.inj h
      refine ⟨l, ?_⟩
      rw [if_pos rfl, if_neg (by cases others <;> exact List.cons_ne_nil _ _)]
    | cons head first =>
      obtain ⟨-, h⟩ := List.cons.inj h
      obtain ⟨l', hl'⟩ := exists_of_arrangeAll_eq h
      refine ⟨l', ?_⟩
      rw [hl', if_neg (List.cons_ne_nil _ _), ite_self]

end Layout

namespace Arrangement

open Layout

/-- Behind items on lines of their own another line begins. -/
theorem foldl_piecesBefore [Display] (first : List Arrangement) (depth col : Nat) :
    (piecesBefore false depth first).foldl Piece.advance col =
      if first = [] then col else depth := by
  rcases List.eq_nil_or_concat first with rfl | ⟨init, last, rfl⟩
  · rfl
  · simp [piecesBefore, separator, Piece.advance]

theorem lineWidth_piecesAfter [Display] (rest : List Arrangement) (depth : Nat)
    (after : List Piece) : lineWidth (piecesAfter false depth rest ++ after) =
      if rest = [] then lineWidth after else 0 := by
  cases rest with
  | nil => rfl
  | cons item rest => exact lineWidth_newline _ _

variable [Display]
variable {l : Layout} {width : Nat} {before after : List Piece} {around : List Arrangement}
variable {b : Arrangement}

/-- The part `b` is what its layout is arranged as in the column behind `before` and with
`after` behind it, and inside a flat sequence it fits there. -/
def Arranged (width : Nat) (before : List Piece) (around : List Arrangement) (b : Arrangement)
    (after : List Piece) : Prop :=
  ∃ l : Layout, b = l.arrange width around.length (column before) (lineWidth after) ∧
    ((∃ s ∈ around, s.isFlat = true) → column before + l.flatWidth + lineWidth after ≤ width)

/-- A part that fits is on one line. -/
theorem arranged_flat (h : column before + l.flatWidth + lineWidth after ≤ width) :
    Arranged width before around l.flat after :=
  ⟨l, (arrange_of_le h).symm, fun _ => h⟩

theorem Arranged.quoted (h : Arranged width before around (.quoted b) after) :
    Arranged width (before ++ [.text "'"]) around b after := by
  obtain ⟨l, hl, hfits⟩ := h
  obtain ⟨inner, rfl, hb⟩ := exists_of_arrange_eq_quoted hl.symm
  have hcolumn : column (before ++ [.text "'"]) = column before + 1 := by
    rw [column_append, ← Width.ofText_apostrophe]
    rfl
  rw [flatWidth, ← Nat.add_assoc] at hfits
  exact ⟨inner, by rw [hcolumn, hb], by rwa [hcolumn]⟩

/-- The items of a sequence on one line, with what is before and after each of them. -/
theorem width_item {items : List Layout} {first rest : List Arrangement} {l : Layout}
    (h : flatAll items = first ++ l.flat :: rest) (depth : Nat) :
    (∀ p ∈ piecesBefore true depth first, p.isNewline = false) ∧
      (∀ p ∈ piecesAfter true depth rest, p.isNewline = false) ∧
      column (piecesBefore true depth first) + l.flatWidth + column (piecesAfter true depth rest) =
        flatWidthItems items := by
  have hpieces : piecesAll true depth (flatAll items) =
      piecesBefore true depth first ++ (l.flat.pieces depth ++ piecesAfter true depth rest) := by
    rw [h, piecesAll_append, piecesAll_cons]
  have hrow := isNewline_flatAll items depth
  rw [hpieces, List.forall_mem_append, List.forall_mem_append] at hrow
  obtain ⟨hbefore, hl, hafter⟩ := hrow
  refine ⟨hbefore, hafter, ?_⟩
  rw [← column_flatAll items depth, hpieces, column_append, List.foldl_append, foldl_advance hl,
    foldl_advance hafter, column_flat]

theorem Arranged.item {kind : Bracket} {flat : Bool} {first rest : List Arrangement}
    (h : Arranged width before around (.sequence kind flat (first ++ b :: rest)) after) :
    Arranged width
      (before ++ .text kind.opener.toString :: piecesBefore flat (around.length + 1) first)
      (.sequence kind flat (first ++ b :: rest) :: around) b
      (piecesAfter flat (around.length + 1) rest ++ .text kind.closer.toString :: after) := by
  obtain ⟨l, hl, hfits⟩ := h
  obtain ⟨ls, rfl, -, hitems⟩ := exists_of_arrange_eq_sequence hl.symm
  split at hitems
  · -- on one line: what is before the item, the item and what is after it add up to the whole
    rename_i hle
    obtain ⟨rfl, hitems⟩ := hitems
    obtain ⟨item, rfl⟩ := exists_of_flatAll_eq hitems.symm
    obtain ⟨hbefore, hafter, hwidth⟩ := width_item hitems.symm (around.length + 1)
    refine arranged_flat ?_
    rw [flatWidth, ← hwidth] at hle
    rw [column_append, List.foldl_cons, foldl_advance hbefore, lineWidth_append hafter,
      lineWidth_cons rfl]
    simp only [Piece.advance]
    omega
  · -- on several lines: a new line before the item or behind it hides what is further away
    rename_i hle
    obtain ⟨rfl, hitems⟩ := hitems
    obtain ⟨item, hitem⟩ := exists_of_arrangeAll_eq hitems.symm
    refine ⟨item, ?_, fun hflat => ?_⟩
    · rw [column_append, List.foldl_cons, foldl_piecesBefore, lineWidth_piecesAfter,
        lineWidth_cons rfl]
      simpa [Piece.advance] using hitem
    · obtain ⟨s, hs, hsflat⟩ := hflat
      rcases List.mem_cons.mp hs with rfl | hs
      · contradiction
      · exact absurd (hfits ⟨s, hs, hsflat⟩) hle

/-- Every part of an arrangement was arranged for where it occurs. -/
theorem Occurs.arranged (h : (l.arrange width 0 0 0).Occurs before around b after) :
    Arranged width before around b after := by
  induction h with
  | whole => exact ⟨l, rfl, fun hflat => by simp at hflat⟩
  | quoted _ ih => exact ih.quoted
  | item _ ih => exact ih.item

/-- In a flat sequence every sequence is flat; and a sequence is flat exactly if the column
behind its opener, its items on one line and what follows them on that line fit. -/
theorem Arranged.flat_iff {kind : Bracket} {flat : Bool} {items : List Arrangement}
    (h : Arranged width before around (.sequence kind flat items) after) :
    ((∃ s ∈ around, s.isFlat = true) → flat = true) ∧
      (flat = true ↔ column (before ++ [.text kind.opener.toString]) +
        flatWidthItems (layouts items) + lineWidth (.text kind.closer.toString :: after) ≤
          width) := by
  obtain ⟨l, hl, hfits⟩ := h
  obtain ⟨ls, rfl, hls, hitems⟩ := exists_of_arrange_eq_sequence hl.symm
  have hwidth : column (before ++ [.text kind.opener.toString]) +
      flatWidthItems (layouts items) + lineWidth (.text kind.closer.toString :: after) =
      column before + (Layout.sequence kind ls).flatWidth + lineWidth after := by
    rw [hls, column_append, lineWidth_cons rfl, flatWidth]
    simp only [List.foldl_cons, List.foldl_nil, Piece.advance]
    omega
  rw [hwidth]
  split at hitems
  · rename_i hle
    exact ⟨fun _ => hitems.1, fun _ => hle, fun _ => hitems.1⟩
  · rename_i hle
    refine ⟨fun hflat => absurd (hfits hflat) hle, fun hflat => ?_, fun h => absurd h hle⟩
    cases hitems.1.symm.trans hflat

end Arrangement
end SExpr
