/-! Places in a source text, counted in characters and in bytes at once. -/

namespace SExpr

-- sums start at the zero of the standard library, whatever else is imported
attribute [local instance (high)] Zero.ofOfNat0

/-- How much of the source comes before a place. -/
structure Mark where
  chars : Nat
  /-- The number of bytes that the characters take up in UTF-8. -/
  bytes : Nat
deriving DecidableEq, Inhabited

/-- The bytes that a text takes up in UTF-8. -/
def byteLength (text : List Char) : Nat := (text.map Char.utf8Size).sum

theorem byteLength_eq (text : List Char) :
    byteLength text = (String.ofList text).utf8ByteSize := by
  induction text with
  | nil => rfl
  | cons c rest ih =>
    have hcons : String.ofList (c :: rest) = String.singleton c ++ String.ofList rest := by
      apply String.ext
      simp
    rw [hcons, String.utf8ByteSize_append, ← ih]
    simp [byteLength]

namespace Mark

def start : Mark := ⟨0, 0⟩

/-- The place after `text`. -/
def advance (m : Mark) (text : List Char) : Mark :=
  ⟨m.chars + text.length, m.bytes + byteLength text⟩

@[simp]
theorem advance_nil (m : Mark) : m.advance [] = m := rfl

@[simp]
theorem advance_append (m : Mark) (a b : List Char) :
    m.advance (a ++ b) = (m.advance a).advance b := by
  simp [advance, byteLength, Nat.add_assoc]

end Mark

structure Span where
  first : Mark
  last : Mark
deriving DecidableEq, Inhabited

end SExpr
