import SExpr.Proofs.Parse.Image
import SExpr.Proofs.Print.Fault

/-! # What is refused, and which error is reported

A symbol without a name, text without characters where text is written as symbols, a
number that is not finite and brackets that the reader would not know are refused
wherever they stand in a value. The first of them gives the error, a sequence coming
before what is in it, and compact and pretty printing report the same one. Tuples are
not checked and need not be: every table holds the brackets that they are written in. -/

namespace SExpr

variable {w : Writer}

theorem Binary64.isFinite_eq_false_iff {x : Binary64} :
    x.isFinite = false ↔ x.IsInfinite ∨ x.isNaN = true := by
  rw [isFinite, isNaN, IsInfinite, decide_eq_false_iff_not, decide_eq_true_iff]
  omega

namespace Value

/-- The value is refused with the error `e`, whatever is in it. -/
inductive Refused (w : Writer) : Value → PrintError → Prop
  | symbol : Refused w (.symbol "") .emptySymbol
  | text : w.options.textStyle = .symbol → Refused w (.text "") .emptySymbol
  | float {x : Binary64} : x.IsInfinite ∨ x.isNaN = true → Refused w (.float x) (.nonFinite x)
  | sequence {kind : Bracket} {items : List Value} : kind ∉ w.brackets.kinds →
      Refused w (.sequence kind items) (.unknownBracket kind)

/-- Of the values in `v` that are refused the first one is refused with the error `e`. -/
def FirstRefused (w : Writer) (v : Value) (e : PrintError) : Prop :=
  ∃ before u after, v.parts = before ++ u :: after ∧ Refused w u e ∧
    ∀ b ∈ before, ∀ e', ¬ Refused w b e'

/-- The result is an error exactly if something in `v` is refused, and then it is the
error of the first such value. -/
structure Reports (w : Writer) (v : Value) (result : Except PrintError String) : Prop where
  fails_iff : (∃ e, result = .error e) ↔ ∃ u ∈ v.parts, ∃ e, Refused w u e
  error_iff : ∀ e, result = .error e ↔ FirstRefused w v e

/-- A fault is found exactly where a value is refused. -/
theorem fault?_eq_some_iff (hw : w.brackets.WellFormed) {v : Value} {e : PrintError} :
    v.fault? w = some e ↔ Refused w v e := by
  constructor
  · intro h
    cases v with
    | symbol name =>
      obtain ⟨hname, he⟩ := Option.ite_none_right_eq_some.mp h
      cases hname
      cases he
      exact .symbol
    | text content =>
      obtain ⟨⟨hstyle, hcontent⟩, he⟩ := Option.ite_none_right_eq_some.mp h
      cases hcontent
      cases he
      exact .text hstyle
    | float x =>
      obtain ⟨hfinite, he⟩ := Option.ite_none_left_eq_some.mp h
      cases he
      exact .float (Binary64.isFinite_eq_false_iff.mp (by simpa using hfinite))
    | sequence kind items =>
      obtain ⟨hunknown, he⟩ := Option.ite_none_left_eq_some.mp h
      cases he
      exact .sequence fun hmem => hunknown (hw.contains_iff.mpr hmem)
    | literal | int | bool | nil | quoted | tuple => contradiction
  · intro h
    cases h with
    | symbol => rfl
    | text hstyle => exact if_pos ⟨hstyle, rfl⟩
    | float hx =>
      have hfinite := Binary64.isFinite_eq_false_iff.mpr hx
      simp [fault?, hfinite]
    | sequence hunknown => exact if_neg fun hknown => hunknown (hw.contains_iff.mp hknown)

theorem fault?_eq_none_iff (hw : w.brackets.WellFormed) {v : Value} :
    v.fault? w = none ↔ ∀ e, ¬ Refused w v e := by
  simp [Option.eq_none_iff_forall_ne_some, fault?_eq_some_iff hw]

/-- The layout decides, whatever text is made of it. -/
theorem reports_map_layout (hw : w.brackets.WellFormed) (v : Value) (text : Layout → String) :
    v.Reports w ((v.layout w).map text) := by
  have herror : ∀ e, (v.layout w).map text = .error e ↔ v.parts.findSome? (fault? w) = some e := by
    intro e
    rw [← failure?_layout, failure?_eq_some_iff]
    cases v.layout w <;> simp [Except.map]
  constructor
  · calc (∃ e, (v.layout w).map text = .error e)
        ↔ (v.parts.findSome? (fault? w)).isSome = true := by
          simp only [herror, Option.isSome_iff_exists]
      _ ↔ ∃ u ∈ v.parts, (u.fault? w).isSome = true := List.findSome?_isSome_iff
      _ ↔ ∃ u ∈ v.parts, ∃ e, Refused w u e := by
          simp only [Option.isSome_iff_exists, fault?_eq_some_iff hw]
  · intro e
    rw [herror, List.findSome?_eq_some_iff, FirstRefused]
    simp only [fault?_eq_some_iff hw, fault?_eq_none_iff hw]

/-- Unknown brackets come first, whatever they enclose. -/
theorem firstRefused_sequence {kind : Bracket} (h : kind ∉ w.brackets.kinds) (items : List Value) :
    FirstRefused w (.sequence kind items) (.unknownBracket kind) :=
  ⟨[], _, partsAll items, rfl, .sequence h, by simp⟩

/-- The brackets of a tuple would pass the check that they are spared. -/
theorem layout_tuple (hw : w.brackets.WellFormed) (items : List Value) :
    (Value.tuple items).layout w = (Value.sequence w.tupleKind items).layout w := by
  have hknown : w.known w.tupleKind = .ok () :=
    Writer.known_eq_ok_iff.mpr (hw.contains_iff.mpr (Writer.tupleKind_mem hw))
  rw [layout, layout, hknown]
  rfl

end Value

/-- Compact and pretty printing fail for the values in which something is refused, with
the error of the first such part. Unknown brackets are reported before all that is in
them, and a tuple is printed as a sequence in known brackets. -/
theorem print_reports [Display] (hw : w.brackets.Reachable) :
    (∀ v : Value, v.Reports w (w.printCompact v) ∧ v.Reports w (w.printPretty v)) ∧
    (∀ kind items, kind ∉ w.brackets.kinds →
      w.printCompact (.sequence kind items) = .error (.unknownBracket kind) ∧
      w.printPretty (.sequence kind items) = .error (.unknownBracket kind)) ∧
    ∀ items, w.tupleKind ∈ w.brackets.kinds ∧
      w.printCompact (.tuple items) = w.printCompact (.sequence w.tupleKind items) ∧
      w.printPretty (.tuple items) = w.printPretty (.sequence w.tupleKind items) := by
  have hcompact : ∀ v : Value, v.Reports w (w.printCompact v) :=
    fun v => v.reports_map_layout hw.wellFormed _
  have hpretty : ∀ v : Value, v.Reports w (w.printPretty v) :=
    fun v => v.reports_map_layout hw.wellFormed _
  refine ⟨fun v => ⟨hcompact v, hpretty v⟩, fun kind items h => ?_, fun items => ?_⟩
  · have hfirst := Value.firstRefused_sequence h items
    exact ⟨((hcompact _).error_iff _).mpr hfirst, ((hpretty _).error_iff _).mpr hfirst⟩
  · have hlayout := Value.layout_tuple hw.wellFormed items
    refine ⟨Writer.tupleKind_mem hw.wellFormed, ?_, ?_⟩
    · rw [Writer.printCompact, Writer.printCompact, hlayout]
    · rw [Writer.printPretty, Writer.printPretty, hlayout]

/-- Braces that were never registered, in a tuple in angles: they come before the empty
symbol and the NaN in them and before the empty text behind them. -/
theorem print_reports_braces :
    (BracketTable.default.offerAll [⟨'<', '>'⟩]).Reachable ∧
    Writer.printPretty ⟨BracketTable.default.offerAll [⟨'<', '>'⟩], { textStyle := .symbol }⟩
        (.sequence ⟨'<', '>'⟩ [.tuple [.symbol "a",
          .sequence ⟨'\x7b', '\x7d'⟩ [.symbol "", .float ⟨0x7ff8000000000000⟩]], .text ""]) =
      .error (.unknownBracket ⟨'\x7b', '\x7d'⟩) := by
  have ht : (BracketTable.default.offerAll [⟨'<', '>'⟩]).Reachable := ⟨_, rfl⟩
  refine ⟨ht, (((print_reports ht).1 _).2.error_iff _).mpr
    ⟨[_, _, _], _, _, rfl, .sequence (by decide), ?_⟩⟩
  simp only [List.forall_mem_cons, List.not_mem_nil, IsEmpty.forall_iff, implies_true, and_true]
  exact ⟨(Value.fault?_eq_none_iff (w := ⟨_, _⟩) ht.wellFormed).mp rfl,
    (Value.fault?_eq_none_iff (w := ⟨_, _⟩) ht.wellFormed).mp rfl,
    (Value.fault?_eq_none_iff (w := ⟨_, _⟩) ht.wellFormed).mp rfl⟩

end SExpr
