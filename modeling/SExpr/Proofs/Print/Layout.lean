import SExpr.Print
import SExpr.Proofs.Except
import SExpr.Proofs.Layout.Render

/-! # Which layouts there are

For every form of a value, its layout from those of its parts. Printing is opened
here and nowhere else: what is printed is taken apart, and put together again, by
these equivalences. -/

namespace SExpr

variable {w : Writer} {l : Layout}

namespace Writer

theorem symbol_eq_ok_iff {name : String} : w.symbol name = .ok l ↔
    name ≠ "" ∧
      l = .atom (.ofList (Atom.encode (w.options.readtable w.brackets) name.toList)) := by
  unfold symbol
  by_cases hempty : name = ""
  · simp [hempty]
  · rw [if_neg (by simpa using hempty), Except.ok.injEq, eq_comm]
    exact (and_iff_right hempty).symm

theorem float_eq_ok_iff {x : Binary64} :
    float x = .ok l ↔ x.isFinite = true ∧ l = .atom (.ofList x.text) := by
  unfold float
  by_cases hfinite : x.isFinite = true
  · rw [if_pos hfinite, Except.ok.injEq, eq_comm]
    exact (and_iff_right hfinite).symm
  · simp [hfinite]

theorem known_eq_ok_iff {kind : Bracket} :
    w.known kind = .ok () ↔ w.brackets.contains kind = true := by
  unfold known
  split <;> simp_all

end Writer

namespace Value

theorem layout_quoted_eq_ok_iff {inner : Value} : (Value.quoted inner).layout w = .ok l ↔
    ∃ l', inner.layout w = .ok l' ∧ l = .quoted l' := by
  simp only [layout, bind_eq_ok_iff, pure_eq_ok_iff]

theorem layout_sequence_eq_ok_iff {kind : Bracket} {items : List Value} :
    (Value.sequence kind items).layout w = .ok l ↔ w.brackets.contains kind = true ∧
      ∃ ls, layouts w items = .ok ls ∧ l = .sequence kind ls := by
  simp only [layout, bind_eq_ok_iff, pure_eq_ok_iff, ← Writer.known_eq_ok_iff]
  constructor
  · intro h
    obtain ⟨u, hknown, hitems⟩ := h
    exact ⟨hknown, hitems⟩
  · intro h
    exact ⟨(), h.1, h.2⟩

theorem layout_tuple_eq_ok_iff {items : List Value} : (Value.tuple items).layout w = .ok l ↔
    ∃ ls, layouts w items = .ok ls ∧ l = .sequence w.tupleKind ls := by
  simp only [layout, bind_eq_ok_iff, pure_eq_ok_iff]

theorem layouts_cons_eq_ok_iff {v : Value} {rest : List Value} {ls : List Layout} :
    layouts w (v :: rest) = .ok ls ↔
      ∃ l, v.layout w = .ok l ∧ ∃ ls', layouts w rest = .ok ls' ∧ ls = l :: ls' := by
  simp only [layouts, bind_eq_ok_iff, pure_eq_ok_iff]

end Value

namespace Writer

variable [Display]

omit [Display] in
theorem printCompact_eq (w : Writer) (v : Value) :
    w.printCompact v = (v.layout w).map Layout.compact :=
  congrArg (Except.map · (v.layout w)) (funext Layout.simple_eq_compact)

theorem printPretty_eq (w : Writer) (v : Value) :
    w.printPretty v = (v.layout w).map (Layout.fill w.options.width 0 0 0) :=
  congrArg (Except.map · (v.layout w)) (funext (Layout.pretty_eq_fill _))

theorem render_eq (w : Writer) (l : Layout) :
    w.render l =
      if w.options.pretty then l.fill w.options.width 0 0 0 else l.compact := by
  rw [render, Layout.pretty_eq_fill, Layout.simple_eq_compact]

theorem print_eq (w : Writer) (v : Value) :
    w.print v = (v.layout w).map fun l =>
      if w.options.pretty then l.fill w.options.width 0 0 0 else l.compact :=
  congrArg (Except.map · (v.layout w)) (funext w.render_eq)

/-- An atom is never broken. -/
theorem render_atom (w : Writer) (content : String) : w.render (.atom content) = content := by
  rw [render_eq]
  exact ite_self _

theorem print_eq_ok_iff {v : Value} {text : String} :
    w.print v = .ok text ↔ ∃ l, v.layout w = .ok l ∧ text = w.render l := by
  unfold print
  cases v.layout w with
  | error e => simp [Except.map]
  | ok l => simp [Except.map, eq_comm]

end Writer
end SExpr
