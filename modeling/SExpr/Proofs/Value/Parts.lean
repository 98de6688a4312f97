import SExpr.Bracket.Table
import SExpr.Number
import SExpr.Proofs.Binary64.Text
import SExpr.Value

/-! # The values in a value

`parts` lists a value and all values in it in the order in which they are printed,
each before what is in it. What is said of each value by itself, without looking
into it, is said of all of them by way of this list. -/

namespace SExpr

/-- None of the characters opens or closes a sequence. -/
def BracketTable.Spares (t : BracketTable) (chars : List Char) : Prop :=
  ∀ c ∈ chars, t.isDelimiter c = false

theorem BracketTable.spares_iff {t : BracketTable} {chars : List Char} :
    t.Spares chars ↔ chars.countP t.isDelimiter = 0 := by
  simp [Spares, List.countP_eq_zero]

instance (t : BracketTable) (chars : List Char) : Decidable (t.Spares chars) :=
  decidable_of_iff _ BracketTable.spares_iff.symm

namespace Value

mutual

/-- The value and the values in it, from left to right. -/
def parts : Value → List Value
  | .symbol name => [.symbol name]
  | .literal content => [.literal content]
  | .text content => [.text content]
  | .int n => [.int n]
  | .float x => [.float x]
  | .bool b => [.bool b]
  | .nil => [.nil]
  | .quoted inner => .quoted inner :: inner.parts
  | .sequence kind items => .sequence kind items :: partsAll items
  | .tuple items => .tuple items :: partsAll items

def partsAll : List Value → List Value
  | [] => []
  | v :: rest => v.parts ++ partsAll rest

end

theorem mem_parts_self (v : Value) : v ∈ v.parts := by
  cases v <;> exact List.mem_cons_self

theorem mem_partsAll {u : Value} {items : List Value} :
    u ∈ partsAll items ↔ ∃ v ∈ items, u ∈ v.parts := by
  induction items with
  | nil => simp [partsAll]
  | cons v rest ih => simp [partsAll, ih]

/-- The value by itself can be read back, whatever is in it: it is a symbol with a
name, text, an integer, a finite float, quoted, or in brackets of the table. -/
def Spelled (t : BracketTable) : Value → Prop
  | .symbol name => name ≠ ""
  | .text _ | .int _ | .quoted _ => True
  | .float x => x.isFinite = true
  | .sequence kind _ => kind ∈ t.kinds
  | .literal _ | .bool _ | .nil | .tuple _ => False

instance (t : BracketTable) : DecidablePred (Spelled t)
  | .symbol name => inferInstanceAs (Decidable (name ≠ ""))
  | .text _ | .int _ | .quoted _ => .isTrue trivial
  | .float x => inferInstanceAs (Decidable (x.isFinite = true))
  | .sequence kind _ => inferInstanceAs (Decidable (kind ∈ t.kinds))
  | .literal _ | .bool _ | .nil | .tuple _ => .isFalse id

/-! ## Numbers -/

/-- The text of a number; other values have none. -/
def numeral : Value → List Char
  | .int n => Number.intText n
  | .float x => x.text
  | _ => []

/-- The texts of the numbers in a value, one after another. -/
def numerals (v : Value) : List Char := v.parts.flatMap numeral

def numeralsAll (items : List Value) : List Char := (partsAll items).flatMap numeral

theorem numeralsAll_cons (v : Value) (rest : List Value) :
    numeralsAll (v :: rest) = v.numerals ++ numeralsAll rest := by
  rw [numeralsAll, partsAll, List.flatMap_append]
  rfl

theorem isNumeral_numeral (v : Value) : ∀ c ∈ v.numeral, Number.IsNumeral c := by
  cases v with
  | int n => exact fun c hc => Number.isNumeral_integerText _ c hc
  | float x => exact fun c hc => x.isNumeral_text c hc
  | _ => simp [numeral]

theorem isNumeral_numerals (v : Value) : ∀ c ∈ v.numerals, Number.IsNumeral c := by
  intro c hc
  obtain ⟨u, -, hu⟩ := List.mem_flatMap.mp hc
  exact u.isNumeral_numeral c hu

end Value
end SExpr
