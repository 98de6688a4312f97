import SExpr.Text.StringLiteral

/-! # Strings, one character at a time

What a character of a text is written as, and what both scans of a string do at a
character of a body and at a backslash with the character behind it. -/

namespace SExpr.StringLiteral

/-- What `encode` writes between the quotes. -/
def body (text : List Char) : List Char := text.flatMap encodeChar

theorem encode_eq (text : List Char) : encode text = '"' :: (body text ++ ['"']) := rfl

theorem body_cons (c : Char) (text : List Char) :
    body (c :: text) = encodeChar c ++ body text := rfl

/-- The quote and the backslash are never written as themselves. -/
theorem encodeChar_cases (c : Char) :
    (∃ letter, letterOf? c = some letter ∧ encodeChar c = ['\\', letter]) ∨
      (c ≠ '"' ∧ c ≠ '\\' ∧ encodeChar c = [c]) := by
  unfold encodeChar
  cases h : letterOf? c with
  | some letter => exact .inl ⟨letter, rfl, rfl⟩
  | none =>
    refine .inr ⟨?_, ?_, rfl⟩ <;>
    · intro he
      rw [he] at h
      contradiction

/-- The letter of an escape does not start a code point. -/
theorem hexEscape?_letter {c letter : Char} (h : letterOf? c = some letter) (rest : List Char) :
    hexEscape? (letter :: rest) = none := by
  have hu : letter ≠ 'u' := by
    intro he
    have hletter := charOf?_of_letterOf? h
    rw [he] at hletter
    contradiction
  unfold hexEscape?
  split
  · rename_i heq
    exact absurd (List.cons.inj heq).1 hu
  · rfl

theorem splitBody?_escape (c : Char) (rest : List Char) :
    splitBody? ('\\' :: c :: rest) =
      (splitBody? rest).map fun p => ('\\' :: c :: p.1, p.2) := by
  rw [splitBody?]
  cases splitBody? rest <;> rfl

theorem splitBody?_plain {c : Char} (hquote : c ≠ '"') (hescape : c ≠ '\\') (rest : List Char) :
    splitBody? (c :: rest) = (splitBody? rest).map fun p => (c :: p.1, p.2) := by
  rw [splitBody?.eq_def]
  split
  · contradiction
  · rename_i heq
    exact absurd (List.cons.inj heq).1 hquote
  · rename_i heq
    exact absurd (List.cons.inj heq).1 hescape
  · rename_i heq
    obtain ⟨rfl, rfl⟩ := List.cons.inj heq
    cases splitBody? rest <;> rfl

/-- A body that was split off is split off before any other text, since it is the
first quote that ends it. -/
theorem splitBody?_of_splitBody? {text body rest : List Char}
    (h : splitBody? text = some (body, rest)) (rest' : List Char) :
    splitBody? (body ++ '"' :: rest') = some (body, rest') := by
  fun_induction splitBody? text generalizing body rest with
  | case1 | case4 | case6 => contradiction
  | case2 => cases h; rw [List.nil_append, splitBody?]
  | case3 c tail body after htail ih =>
    cases h
    rw [List.cons_append, List.cons_append, splitBody?_escape, ih htail]
    rfl
  | case5 c tail hquote hlone body after htail ih =>
    cases h
    have hescape : c ≠ '\\' := by
      intro hc
      cases tail with
      | nil => contradiction
      | cons d tail => exact hlone d tail hc rfl
    rw [List.cons_append, splitBody?_plain hquote hescape, ih htail]
    rfl

theorem decode_plain {c : Char} (hescape : c ≠ '\\') (rest : List Char) :
    decode (c :: rest) = c :: decode rest := by
  rw [decode.eq_def]
  split
  · contradiction
  · rename_i heq
    exact absurd (List.cons.inj heq).1 hescape
  · rename_i heq
    obtain ⟨rfl, rfl⟩ := List.cons.inj heq
    rfl

theorem decode_escape {c letter : Char} (h : letterOf? c = some letter) (rest : List Char) :
    decode ('\\' :: letter :: rest) = c :: decode rest := by
  rw [decode]
  split
  · rename_i hhex
    rw [hexEscape?_letter h] at hhex
    contradiction
  · simp only [charOf?_of_letterOf? h]

end SExpr.StringLiteral
