import SExpr.Native
import SExpr.Proofs.Print.Layout
import SExpr.Proofs.Bracket.Reachable

/-! # Data of the host is printed as the value that it stands for

The layouts are the same, so the texts and the errors are. Only a list takes a way
of its own: as a value its brackets are looked up in the table, which always has
them. -/

namespace SExpr

namespace Native

/-! ## Integers -/

/-- The whole number that an integer of the host is, whatever its width. -/
def integer? : Native → Option Int
  | .int8 n => .some n.toInt
  | .int16 n => .some n.toInt
  | .int32 n => .some n.toInt
  | .int64 n => .some n.toInt
  | .uint8 n => .some n.toNat
  | .uint16 n => .some n.toNat
  | .uint32 n => .some n.toNat
  | _ => .none

/-- All widths fit into 64 bits. -/
theorem exists_toValue_eq_int {n : Native} {i : Int} (h : n.integer? = .some i) :
    ∃ m : Int64, n.toValue = .int m ∧ m.toInt = i := by
  cases n with
  | int8 n | int16 n | int32 n | int64 n =>
    cases h
    exact ⟨_, rfl, by simp⟩
  | uint8 n | uint16 n | uint32 n =>
    cases h
    have hlt := n.toNat_lt
    exact ⟨_, rfl, Int64.toInt_ofNat_of_lt (by omega)⟩
  | _ => contradiction

/-! ## Layouts -/

mutual

theorem layout_toValue {w : Writer} (hparens : w.known .parens = .ok ()) (n : Native) :
    n.toValue.layout w = n.layout w := by
  match n with
  | .int8 _ | .int16 _ | .int32 _ | .int64 _ | .uint8 _ | .uint16 _ | .uint32 _ => rfl
  | .float _ | .bool _ | .text _ | .none | .symbol _ | .literal _ | .value _ => rfl
  | .some inner | .shared inner =>
    rw [toValue, layout]
    exact layout_toValue hparens inner
  | .array items =>
    rw [toValue, layout, Value.list, Value.layout, hparens, layouts_toValues hparens items]
    rfl
  | .pair first second =>
    rw [toValue, layout, Value.layout]
    simp only [Value.layouts, layout_toValue hparens first, layout_toValue hparens second]
    -- the items are laid out in turn, and the first error is the error of both
    cases first.layout w <;> cases second.layout w <;> rfl
  | .triple first second third =>
    rw [toValue, layout, Value.layout]
    simp only [Value.layouts, layout_toValue hparens first, layout_toValue hparens second,
      layout_toValue hparens third]
    cases first.layout w <;> cases second.layout w <;> cases third.layout w <;> rfl

theorem layouts_toValues {w : Writer} (hparens : w.known .parens = .ok ()) (items : List Native) :
    Value.layouts w (toValues items) = layouts w items := by
  match items with
  | [] => rfl
  | n :: rest =>
    rw [toValues, Value.layouts, layouts, layout_toValue hparens n, layouts_toValues hparens rest]

end

end Native

/-- Whatever data of the host is printed, in whatever way, gives the text or the error
of the value that it stands for, and integers stand for themselves. -/
theorem native_prints_as_value [Display] {w : Writer} (hw : w.brackets.Reachable) (n : Native) :
    w.printNativeCompact n = w.printCompact n.toValue ∧
    w.printNativePretty n = w.printPretty n.toValue ∧
    w.printNative n = w.print n.toValue ∧
    ∀ i, n.integer? = some i → ∃ m : Int64, n.toValue = .int m ∧ m.toInt = i := by
  have hparens : w.known .parens = .ok () :=
    Writer.known_eq_ok_iff.mpr (hw.wellFormed.contains_iff.mpr hw.wellFormed.parens_mem)
  have hlayout := Native.layout_toValue hparens n
  refine ⟨?_, ?_, ?_, fun i => Native.exists_toValue_eq_int⟩
  · rw [Writer.printNativeCompact, Writer.printCompact, hlayout]
  · rw [Writer.printNativePretty, Writer.printPretty, hlayout]
  · rw [Writer.printNative, Writer.print, hlayout]

/-- An array of a pair behind a pointer and of text that is present, with arrays for
tuples and symbols for text, and the error of an empty text in a triple. -/
theorem native_prints_as_value_nested :
    (BracketTable.default.offerAll [⟨'<', '>'⟩]).Reachable ∧
    Writer.printNativePretty
        ⟨BracketTable.default.offerAll [⟨'<', '>'⟩],
          { textStyle := .symbol, tupleStyle := .array, width := 8 }⟩
        (.array [.shared (.pair (.uint8 255) .none), .some (.text "a>b")]) =
      .ok "([255\n  nil]\n a\\>b)" ∧
    Writer.printNativeCompact
        ⟨BracketTable.default.offerAll [⟨'<', '>'⟩], { textStyle := .symbol }⟩
        (.triple (.int8 (-1)) (.text "") (.value (.sequence ⟨'«', '»'⟩ []))) =
      .error .emptySymbol := by
  have ht : (BracketTable.default.offerAll [⟨'<', '>'⟩]).Reachable := ⟨_, rfl⟩
  refine ⟨ht, ?_, ?_⟩
  · exact (native_prints_as_value (w := ⟨_, _⟩) ht _).2.1.trans
      ((Writer.printPretty_eq _ _).trans rfl)
  · exact (native_prints_as_value (w := ⟨_, _⟩) ht _).1.trans rfl

end SExpr
