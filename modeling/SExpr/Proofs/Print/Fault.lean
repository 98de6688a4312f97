import SExpr.Proofs.Bracket.Reachable
import SExpr.Proofs.Except
import SExpr.Proofs.Value.Parts
import SExpr.Print

/-! # What can not be printed

A value has a fault of its own if it can not be printed whatever is in it. Printing
fails exactly if a value or one in it has such a fault, and reports the first of
them, so a sequence in unknown brackets is reported before all that is in it. -/

namespace SExpr

/-! ## The error of a result -/

def failure? {ε α : Type} : Except ε α → Option ε
  | .ok _ => none
  | .error e => some e

section
variable {ε α β γ : Type}

theorem failure?_eq_some_iff {x : Except ε α} {e : ε} : failure? x = some e ↔ x = .error e := by
  cases x <;> simp [failure?]

theorem failure?_eq_none_iff {x : Except ε α} : failure? x = none ↔ ∃ a, x = .ok a := by
  cases x <;> simp [failure?]

theorem failure?_map (x : Except ε α) (f : α → β) :
    failure? (do return f (← x)) = failure? x := by
  cases x <;> rfl

/-- Of two steps the first one that fails gives the error. -/
theorem failure?_seq (x : Except ε α) (y : Except ε β) (f : α → β → γ) :
    failure? (do let a ← x; let b ← y; return f a b) = (failure? x).or (failure? y) := by
  cases x <;> cases y <;> rfl

end

namespace Value

/-- Why the value can not be printed, whatever is in it. -/
def fault? (w : Writer) : Value → Option PrintError
  | .symbol name => if name = "" then some .emptySymbol else none
  | .text content =>
    if w.options.textStyle = .symbol ∧ content = "" then some .emptySymbol else none
  | .float x => if x.isFinite then none else some (.nonFinite x)
  | .sequence kind _ => if w.brackets.contains kind then none else some (.unknownBracket kind)
  | .literal _ | .int _ | .bool _ | .nil | .quoted _ | .tuple _ => none

theorem failure?_symbol (w : Writer) (name : String) :
    failure? (w.symbol name) = if name = "" then some .emptySymbol else none := by
  unfold Writer.symbol
  by_cases h : name = "" <;> simp [h, failure?]

theorem failure?_text (w : Writer) (content : String) :
    failure? (w.text content) = (Value.text content).fault? w := by
  unfold Writer.text fault?
  cases hstyle : w.options.textStyle with
  | string => rfl
  | symbol => simp [failure?_symbol]

theorem failure?_float (w : Writer) (x : Binary64) :
    failure? (Writer.float x) = (Value.float x).fault? w := by
  unfold Writer.float
  by_cases h : x.isFinite = true <;> simp [fault?, failure?, h]

theorem failure?_known (w : Writer) (kind : Bracket) (items : List Value) :
    failure? (w.known kind) = (Value.sequence kind items).fault? w := by
  unfold Writer.known
  by_cases h : w.brackets.contains kind = true <;> simp [fault?, failure?, h]

mutual

/-- The first fault in a value is the error of its layout. -/
theorem failure?_layout (w : Writer) (v : Value) :
    failure? (v.layout w) = v.parts.findSome? (fault? w) := by
  match v with
  | .symbol name => simpa [layout, parts, fault?] using failure?_symbol w name
  | .text content => simpa [layout, parts] using failure?_text w content
  | .float x => simpa [layout, parts] using failure?_float w x
  | .literal _ | .int _ | .bool _ | .nil => rfl
  | .quoted inner =>
    rw [layout, failure?_map, failure?_layout w inner]
    rfl
  | .sequence kind items =>
    rw [layout, failure?_seq, failure?_known w kind items, failure?_layouts w items, parts,
      List.findSome?_cons]
    cases (Value.sequence kind items).fault? w <;> rfl
  | .tuple items =>
    rw [layout, failure?_map, failure?_layouts w items]
    rfl

theorem failure?_layouts (w : Writer) (items : List Value) :
    failure? (layouts w items) = (partsAll items).findSome? (fault? w) := by
  match items with
  | [] => rfl
  | v :: rest =>
    rw [layouts, failure?_seq, failure?_layout w v, failure?_layouts w rest, partsAll,
      List.findSome?_append]

end

/-- Printing fails with the first fault among the parts of a value. -/
theorem print_eq_error_iff [Display] {w : Writer} {v : Value} {e : PrintError} :
    w.print v = .error e ↔ v.parts.findSome? (fault? w) = some e := by
  rw [← failure?_layout, failure?_eq_some_iff, Writer.print]
  cases v.layout w <;> simp [Except.map]

theorem Spelled.fault?_eq_none {w : Writer} {v : Value} (h : v.Spelled w.brackets)
    (hw : w.brackets.WellFormed) (hstyle : w.options.textStyle = .string) :
    v.fault? w = none := by
  match v with
  | .symbol name => simpa [fault?, Spelled] using h
  | .text content => simp [fault?, hstyle]
  | .float x => simpa [fault?, Spelled] using h
  | .sequence kind items => simpa [fault?] using hw.contains_iff.mpr h
  | .int _ | .quoted _ => rfl

/-- A value without faults has a layout. -/
theorem exists_layout {w : Writer} {v : Value} (h : ∀ u ∈ v.parts, u.fault? w = none) :
    ∃ l, v.layout w = .ok l := by
  rw [← failure?_eq_none_iff, failure?_layout, List.findSome?_eq_none_iff]
  exact h

end Value
end SExpr
