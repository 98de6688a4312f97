import SExpr.Printer.Doc
import SExpr.Proofs.Text.Width

/-! # Lines and columns

A text as pieces: the texts of atoms, brackets and apostrophes, and the spaces and new lines
between items. A new line begins with its indentation, and the column at a place is what the
pieces of its line up to there take up, each measured on its own; a newline inside an atom is
a part of its text like any other. `SpacesFit` says that no space has too wide a line, and is
put together from parts of a text. -/

namespace SExpr

namespace Layout

/-- An atom, a bracket or an apostrophe, or what is between two items: a space, or a new line
with its indentation. -/
inductive Piece
  | text (content : String)
  | space
  | newline (indent : Nat)
deriving DecidableEq

namespace Piece

/-- What a piece is written as. -/
def written : Piece → String
  | .text content => content
  | .space => " "
  | .newline indent => Doc.newline indent

def isNewline : Piece → Bool
  | .newline _ => true
  | _ => false

/-- The column behind a piece that begins in column `column`. -/
def advance [Display] (column : Nat) : Piece → Nat
  | .text content => column + Width.ofText content
  | .space => column + 1
  | .newline indent => indent

end Piece

/-- The text that pieces make up. -/
def written (ps : List Piece) : String := String.join (ps.map Piece.written)

/-- The column behind the pieces of a text. -/
def column [Display] (ps : List Piece) : Nat := ps.foldl Piece.advance 0

/-- The pieces before the next new line. -/
def firstLine (ps : List Piece) : List Piece := ps.takeWhile (!·.isNewline)

/-- The width of what is before the next new line. -/
def lineWidth [Display] (ps : List Piece) : Nat := column (firstLine ps)

/-- The lines that a new line begins. -/
def laterLines : List Piece → List (List Piece)
  | [] => []
  | .newline indent :: ps => (.newline indent :: firstLine ps) :: laterLines ps
  | .text _ :: ps | .space :: ps => laterLines ps

/-- All lines of a text, each with its indentation. -/
def lines (ps : List Piece) : List (List Piece) := firstLine ps :: laterLines ps

/-- No space among the pieces `ps`, which begin in column `column` and have `after` behind
them, is on a line of more than `width` columns. -/
def SpacesFit [Display] (width column : Nat) : List Piece → List Piece → Prop
  | [], _ => True
  | p :: ps, after =>
    (p = .space → column + 1 + lineWidth (ps ++ after) ≤ width) ∧
      SpacesFit width (p.advance column) ps after

variable [Display] {width col : Nat} {p : Piece} {ps qs after : List Piece}

omit [Display] in
@[simp]
theorem written_append (ps qs : List Piece) : written (ps ++ qs) = written ps ++ written qs := by
  simp [written]

omit [Display] in
@[simp]
theorem written_cons (p : Piece) (ps : List Piece) :
    written (p :: ps) = p.written ++ written ps := by
  simp [written]

omit [Display] in
theorem written_text (content : String) : written [.text content] = content := by
  simp [Piece.written, written]

@[simp]
theorem column_append (ps qs : List Piece) :
    column (ps ++ qs) = qs.foldl Piece.advance (column ps) := List.foldl_append

omit [Display] in
@[simp]
theorem firstLine_newline (indent : Nat) (ps : List Piece) :
    firstLine (.newline indent :: ps) = [] := List.takeWhile_cons_of_neg Bool.noConfusion

@[simp]
theorem lineWidth_newline (indent : Nat) (ps : List Piece) :
    lineWidth (.newline indent :: ps) = 0 := by
  rw [lineWidth, firstLine_newline]
  rfl

/-- Without a new line the column moves on by the width of the pieces. -/
theorem foldl_advance (h : ∀ p ∈ ps, p.isNewline = false) (col : Nat) :
    ps.foldl Piece.advance col = col + column ps := by
  induction ps generalizing col with
  | nil => rfl
  | cons p ps ih =>
    obtain ⟨hp, hps⟩ := List.forall_mem_cons.mp h
    have hadvance : p.advance col = col + p.advance 0 := by
      cases p with
      | text | space => simp [Piece.advance]
      | newline => contradiction
    rw [column, List.foldl_cons, List.foldl_cons, ih hps, ih hps (p.advance 0), hadvance,
      Nat.add_assoc]

omit [Display] in
theorem isNewline_of_mem_firstLine (hp : p ∈ firstLine ps) : p.isNewline = false := by
  simpa using List.all_eq_true.mp List.all_takeWhile p hp

/-- The column at the end of the line on which the column is `col`. -/
theorem foldl_advance_firstLine (ps : List Piece) (col : Nat) :
    (firstLine ps).foldl Piece.advance col = col + lineWidth ps :=
  foldl_advance (fun _ hp => isNewline_of_mem_firstLine hp) col

theorem lineWidth_append (h : ∀ p ∈ ps, p.isNewline = false) (qs : List Piece) :
    lineWidth (ps ++ qs) = column ps + lineWidth qs := by
  have hfirst : firstLine (ps ++ qs) = ps ++ firstLine qs :=
    List.takeWhile_append_of_pos fun p hp => by rw [h p hp]; rfl
  rw [lineWidth, hfirst, column_append, foldl_advance_firstLine]

theorem lineWidth_cons (h : p.isNewline = false) (ps : List Piece) :
    lineWidth (p :: ps) = p.advance 0 + lineWidth ps := by
  have hrow : ∀ q ∈ [p], q.isNewline = false := by simpa using h
  exact lineWidth_append hrow ps

/-- Where texts are as wide as their parts, a row of pieces is as wide as its text. -/
theorem column_eq_ofText (hwidth : Display.Additive) (h : ∀ p ∈ ps, p.isNewline = false) :
    column ps = Width.ofText (written ps) := by
  induction ps with
  | nil => exact Width.ofText_empty.symm
  | cons p ps ih =>
    obtain ⟨hp, hps⟩ := List.forall_mem_cons.mp h
    have hpiece : p.advance 0 = Width.ofText p.written := by
      cases p with
      | text content => exact Nat.zero_add _
      | space => exact Width.ofText_space.symm
      | newline => contradiction
    rw [written_cons, hwidth, ← ih hps, ← hpiece]
    exact foldl_advance hps _

theorem spacesFit_append : SpacesFit width col (ps ++ qs) after ↔
    SpacesFit width col ps (qs ++ after) ∧
      SpacesFit width (ps.foldl Piece.advance col) qs after := by
  induction ps generalizing col with
  | nil => simp [SpacesFit]
  | cons p ps ih => simp only [List.cons_append, SpacesFit, ih, List.append_assoc,
      List.foldl_cons, and_assoc]

/-- On a line that fits all spaces do. -/
theorem spacesFit_of_le (h : ∀ p ∈ ps, p.isNewline = false)
    (hfits : col + column ps + lineWidth after ≤ width) : SpacesFit width col ps after := by
  induction ps generalizing col with
  | nil => trivial
  | cons p ps ih =>
    obtain ⟨hp, hps⟩ := List.forall_mem_cons.mp h
    rw [← foldl_advance h, List.foldl_cons, foldl_advance hps] at hfits
    refine ⟨fun hspace => ?_, ih hps hfits⟩
    subst hspace
    rw [lineWidth_append hps, ← Nat.add_assoc]
    exact hfits

/-! ## From spaces to lines -/

theorem SpacesFit.firstLine_le (h : SpacesFit width col ps []) (hspace : .space ∈ firstLine ps) :
    col + lineWidth ps ≤ width := by
  induction ps generalizing col with
  | nil => contradiction
  | cons p ps ih =>
    obtain ⟨hp, hps⟩ := h
    cases p with
    | newline indent =>
      rw [firstLine_newline] at hspace
      contradiction
    | space =>
      have hfits := hp rfl
      rw [List.append_nil, Nat.add_assoc] at hfits
      rwa [lineWidth_cons rfl]
    | text content =>
      rw [firstLine, List.takeWhile_cons_of_pos rfl, List.mem_cons] at hspace
      have hfits := ih hps (hspace.resolve_left Piece.noConfusion)
      rw [Piece.advance, Nat.add_assoc] at hfits
      rw [lineWidth_cons rfl, Piece.advance, Nat.zero_add]
      exact hfits

theorem SpacesFit.laterLines_le (h : SpacesFit width col ps []) {line : List Piece}
    (hline : line ∈ laterLines ps) (hspace : .space ∈ line) : column line ≤ width := by
  induction ps generalizing col with
  | nil => contradiction
  | cons p ps ih =>
    obtain ⟨-, hps⟩ := h
    cases p with
    | text | space => exact ih hps hline
    | newline indent =>
      rw [laterLines, List.mem_cons] at hline
      rcases hline with rfl | hline
      · have hfits := hps.firstLine_le ((List.mem_cons.mp hspace).resolve_left Piece.noConfusion)
        rwa [← foldl_advance_firstLine] at hfits
      · exact ih hps hline

/-- If the spaces of a text fit, a line that is too wide has none. -/
theorem SpacesFit.not_mem_lines (h : SpacesFit width 0 ps []) {line : List Piece}
    (hline : line ∈ lines ps) (hwide : width < column line) : .space ∉ line := by
  refine fun hspace => Nat.not_le_of_lt hwide ?_
  rcases List.mem_cons.mp hline with rfl | hline
  · simpa [lineWidth] using h.firstLine_le hspace
  · exact h.laterLines_le hline hspace

end Layout
end SExpr
