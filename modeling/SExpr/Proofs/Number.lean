import SExpr.Number

/-! # Which texts are numbers

The grammar of numbers says what a text spells: a whole number, or a sign and the
decimal that the digits around a point make. Exactly such texts are read as numbers,
each as what it spells, unless a whole number is out of range. So the text of an
integer is read as that integer, and every spelling of a decimal is a matter of where
the point and the exponent stand. -/

namespace SExpr

namespace Digits

/-- A run of digits. -/
def AllDigits (cs : List Char) : Prop := ∀ c ∈ cs, c.isDigit = true

theorem allDigits_toDigits (n : Nat) : AllDigits (Nat.toDigits 10 n) := by
  intro c hc
  exact Nat.isDigit_of_mem_toDigits (by omega) (by omega) hc

theorem AllDigits.append {cs ds : List Char} (hc : AllDigits cs) (hd : AllDigits ds) :
    AllDigits (cs ++ ds) := by
  intro c h
  rcases List.mem_append.mp h with h | h
  · exact hc c h
  · exact hd c h

theorem allDigits_zeros (n : Nat) : AllDigits (List.replicate n '0') := by
  intro c hc
  rw [List.eq_of_mem_replicate hc]
  rfl

theorem value_append (cs ds : List Char) :
    value (cs ++ ds) = value cs * 10 ^ ds.length + value ds := by
  unfold value
  rw [Nat.ofDigitChars_append, Nat.ofDigitChars_eq_ofDigitChars_zero, Nat.mul_comm]

theorem value_zeros (n : Nat) : value (List.replicate n '0') = 0 := by
  simp [value]

/-- Zeros at the end are factors of ten. -/
theorem value_append_zeros (cs : List Char) (n : Nat) :
    value (cs ++ List.replicate n '0') = value cs * 10 ^ n := by
  rw [value_append, value_zeros, List.length_replicate, Nat.add_zero]

/-! ## Signs -/

/-- A text after a minus sign, if there is to be one. -/
def signed (negative : Bool) (text : List Char) : List Char :=
  if negative then '-' :: text else text

/-- A sign that may be left out, and whether it is a minus. -/
inductive Sign : Bool → List Char → Prop
  | absent : Sign false []
  | plus : Sign false ['+']
  | minus : Sign true ['-']

theorem Sign.splitSign_append {negative : Bool} {sign rest : List Char} (h : Sign negative sign)
    (hrest : ∀ c ∈ rest.head?, c ≠ '-' ∧ c ≠ '+') :
    splitSign (sign ++ rest) = (negative, rest) := by
  cases h with
  | plus | minus => rfl
  | absent =>
    rw [List.nil_append]
    unfold splitSign
    split
    · exact absurd rfl (hrest '-' rfl).1
    · exact absurd rfl (hrest '+' rfl).2
    · rfl

theorem exists_sign_signed (negative : Bool) :
    ∃ sign, Sign negative sign ∧ ∀ text, signed negative text = sign ++ text := by
  cases negative with
  | false => exact ⟨[], .absent, fun _ => rfl⟩
  | true => exact ⟨['-'], .minus, fun _ => rfl⟩

/-- What follows the sign may begin with another one. -/
theorem exists_sign_splitSign (text : List Char) :
    ∃ sign, Sign (splitSign text).1 sign ∧ text = sign ++ (splitSign text).2 := by
  unfold splitSign
  split
  · exact ⟨['-'], .minus, rfl⟩
  · exact ⟨['+'], .plus, rfl⟩
  · exact ⟨[], .absent, rfl⟩

theorem AllDigits.ne_sign {digits : List Char} (h : AllDigits digits) (hne : digits ≠ [])
    (rest : List Char) : ∀ c ∈ (digits ++ rest).head?, c ≠ '-' ∧ c ≠ '+' := by
  obtain ⟨d, more, rfl⟩ := List.exists_cons_of_ne_nil hne
  intro c hc
  have hdigit : c.isDigit = true := by
    rw [List.cons_append, List.head?_cons, Option.mem_some_iff] at hc
    exact hc ▸ h d List.mem_cons_self
  constructor <;>
  · intro hsign
    rw [hsign] at hdigit
    contradiction

theorem Sign.splitSign_digits {negative : Bool} {sign digits : List Char}
    (h : Sign negative sign) (hne : digits ≠ []) (hdigits : AllDigits digits) :
    splitSign (sign ++ digits) = (negative, digits) := by
  have hhead := hdigits.ne_sign hne []
  rw [List.append_nil] at hhead
  exact h.splitSign_append hhead

theorem integerText_eq (n : Int) : integerText n = signed (n < 0) (Nat.toDigits 10 n.natAbs) := by
  simp [integerText, signed]

theorem signedValue_toDigits (n : Int) :
    signedValue (decide (n < 0)) (Nat.toDigits 10 n.natAbs) = n := by
  unfold signedValue
  rw [value_toDigits]
  by_cases h : n < 0
  · rw [decide_eq_true h, if_pos rfl]
    omega
  · rw [decide_eq_false h, if_neg Bool.false_ne_true]
    omega

end Digits

namespace Number
open Digits

/-! ## The grammar -/

/-- A sign or none and at least one digit, and the whole number that they make. -/
inductive IntegerText : Int → List Char → Prop
  | mk {negative : Bool} {sign digits : List Char} : Sign negative sign → digits ≠ [] →
      AllDigits digits → IntegerText (signedValue negative digits) (sign ++ digits)

/-- Digits before a point, digits behind it, and both together with the point. There
may be none on one of its sides. -/
inductive Mantissa : List Char → List Char → List Char → Prop
  | whole {whole places : List Char} : whole ≠ [] → AllDigits whole → AllDigits places →
      Mantissa whole places (whole ++ '.' :: places)
  | places {places : List Char} : places ≠ [] → AllDigits places →
      Mantissa [] places ('.' :: places)

/-- An exponent that may be left out, and its value. -/
inductive ExponentText : Int → List Char → Prop
  | absent : ExponentText 0 []
  | mk {mark : Char} {exponent : Int} {text : List Char} : mark = 'e' ∨ mark = 'E' →
      IntegerText exponent text → ExponentText exponent (mark :: text)

/-- A sign or none, digits around a point and an exponent or none: the sign and the
decimal that such a text spells. -/
inductive DecimalText : Bool → Decimal → List Char → Prop
  | mk {negative : Bool} {sign whole places mantissa mark : List Char} {exponent : Int} :
      Sign negative sign → Mantissa whole places mantissa → ExponentText exponent mark →
      DecimalText negative ⟨value (whole ++ places), exponent - places.length⟩
        (sign ++ (mantissa ++ mark))

theorem Mantissa.allDigits {whole places text : List Char} (h : Mantissa whole places text) :
    AllDigits whole ∧ AllDigits places := by
  cases h with
  | whole _ hwhole hplaces => exact ⟨hwhole, hplaces⟩
  | places _ hplaces => exact ⟨by simp [AllDigits], hplaces⟩

theorem Mantissa.text_eq {whole places text : List Char} (h : Mantissa whole places text) :
    text = whole ++ '.' :: places ∧ (whole.isEmpty && places.isEmpty) = false := by
  cases h with
  | whole hne _ _ => exact ⟨rfl, by simp [hne]⟩
  | places hne _ => exact ⟨rfl, by simpa using hne⟩

/-! ## What spells a number is read as that number -/

theorem takeWhile_digits {digits : List Char} (h : AllDigits digits) (rest : List Char)
    (hrest : ∀ c ∈ rest.head?, c.isDigit = false) :
    (digits ++ rest).takeWhile Char.isDigit = digits ∧
      (digits ++ rest).dropWhile Char.isDigit = rest := by
  rw [List.takeWhile_append_of_pos h, List.dropWhile_append_of_pos h]
  cases rest with
  | nil => exact ⟨by simp, rfl⟩
  | cons c rest =>
    have hc : ¬ c.isDigit = true := by simpa using hrest c
    rw [List.takeWhile_cons_of_neg hc, List.dropWhile_cons_of_neg hc, List.append_nil]
    exact ⟨rfl, rfl⟩

theorem IntegerText.read? {n : Int} {text : List Char} (h : IntegerText n text) :
    read? text = int? n := by
  cases h with
  | @mk negative sign digits hsign hne hdigits =>
    have hsplit := hsign.splitSign_digits hne hdigits
    have hrun := takeWhile_digits hdigits [] (by simp)
    rw [List.append_nil] at hrun
    have hempty : digits.isEmpty = false := by simpa using hne
    unfold Number.read?
    simp only [hsplit, hrun.1, hrun.2, hempty, Bool.false_eq_true, if_false]

theorem ExponentText.exponent? {exponent : Int} {mark : List Char}
    (h : ExponentText exponent mark) : exponent? mark = some exponent := by
  cases h with
  | absent => rfl
  | mk hmark htext =>
    cases htext with
    | mk hsign hne hdigits =>
      have hsplit := hsign.splitSign_digits hne hdigits
      have hall := List.all_eq_true.mpr hdigits
      simp only [Number.exponent?, hsplit, Bool.and_eq_true, Bool.or_eq_true, beq_iff_eq,
        Bool.not_eq_true', List.isEmpty_eq_false_iff, hmark, hne, hall, ne_eq, not_false_eq_true,
        and_self, if_true]

theorem ExponentText.not_isDigit {exponent : Int} {mark : List Char}
    (h : ExponentText exponent mark) : ∀ c ∈ mark.head?, c.isDigit = false := by
  cases h with
  | absent => simp
  | mk hmark _ => rcases hmark with rfl | rfl <;> simp

theorem DecimalText.read? {negative : Bool} {d : Decimal} {text : List Char}
    (h : DecimalText negative d text) : read? text = some (.float (.ofDecimal negative d)) := by
  cases h with
  | @mk sign whole places mantissa mark exponent hsign hmantissa hexponent =>
    obtain ⟨rfl, hsome⟩ := hmantissa.text_eq
    obtain ⟨hwhole, hplaces⟩ := hmantissa.allDigits
    have hhead : ∀ c ∈ (whole ++ '.' :: (places ++ mark)).head?, c ≠ '-' ∧ c ≠ '+' := by
      cases whole with
      | nil => simp
      | cons c rest => exact hwhole.ne_sign (List.cons_ne_nil _ _) _
    have hsplit := hsign.splitSign_append hhead
    have hfront := takeWhile_digits hwhole ('.' :: (places ++ mark)) (by simp)
    have hback := takeWhile_digits hplaces mark hexponent.not_isDigit
    unfold Number.read?
    simp only [List.append_assoc, List.cons_append, hsplit, hfront.1, hfront.2, hback.1, hback.2,
      hexponent.exponent?, hsome, Bool.false_eq_true, if_false, Option.map_some]

/-! ## What is read as a number spells it -/

theorem exponentText_of_exponent? {exponent : Int} {mark : List Char}
    (h : exponent? mark = some exponent) : ExponentText exponent mark := by
  match mark with
  | [] =>
    cases h
    exact .absent
  | c :: rest =>
    obtain ⟨sign, hsign, hrest⟩ := exists_sign_splitSign rest
    unfold exponent? at h
    dsimp only at h
    generalize splitSign rest = split at *
    obtain ⟨negative, digits⟩ := split
    obtain ⟨hspelled, hvalue⟩ := Option.ite_none_right_eq_some.mp h
    simp only [Bool.and_eq_true, Bool.or_eq_true, beq_iff_eq, Bool.not_eq_true',
      List.isEmpty_eq_false_iff, List.all_eq_true] at hspelled
    obtain ⟨⟨hmark, hne⟩, hdigits⟩ := hspelled
    cases hvalue
    have htext := IntegerText.mk hsign hne hdigits
    rw [← hrest] at htext
    exact .mk hmark htext

/-- A number that is read is spelled by the text, be it an integer or a decimal. -/
theorem spelled_of_read? {text : List Char} {r : Number} (h : read? text = some r) :
    (∃ n, IntegerText n text ∧ int? n = some r) ∨
      ∃ negative d, DecimalText negative d text ∧ r = .float (.ofDecimal negative d) := by
  obtain ⟨sign, hsign, htext⟩ := exists_sign_splitSign text
  unfold read? at h
  generalize splitSign text = split at *
  obtain ⟨negative, body⟩ := split
  have hbody := List.takeWhile_append_dropWhile (p := Char.isDigit) (l := body)
  have hwhole : AllDigits (body.takeWhile Char.isDigit) := List.all_eq_true.mp List.all_takeWhile
  dsimp only at *
  generalize body.takeWhile Char.isDigit = whole at *
  split at h
  · rename_i hend
    obtain ⟨hne, hvalue⟩ := Option.ite_none_left_eq_some.mp h
    rw [hend, List.append_nil] at hbody
    rw [htext, ← hbody]
    exact .inl ⟨_, .mk hsign (by simpa using hne) hwhole, hvalue⟩
  · rename_i rest hpoint
    have hrest := List.takeWhile_append_dropWhile (p := Char.isDigit) (l := rest)
    have hplaces : AllDigits (rest.takeWhile Char.isDigit) := List.all_eq_true.mp List.all_takeWhile
    generalize rest.takeWhile Char.isDigit = places at *
    obtain ⟨hsome, hvalue⟩ := Option.ite_none_left_eq_some.mp h
    obtain ⟨exponent, hexponent, hr⟩ := Option.map_eq_some_iff.mp hvalue
    have hmark := exponentText_of_exponent? hexponent
    have hmantissa : Mantissa whole places (whole ++ '.' :: places) := by
      by_cases hw : whole = []
      · subst hw
        exact .places (by simpa using hsome) hplaces
      · exact .whole hw hwhole hplaces
    have hspelled := DecimalText.mk hsign hmantissa hmark
    rw [List.append_assoc, List.cons_append, hrest, ← hpoint, hbody, ← htext] at hspelled
    exact .inr ⟨_, _, hspelled, hr.symm⟩
  · contradiction

theorem int?_eq_some_iff {n : Int} {r : Number} :
    int? n = some r ↔ -2 ^ 63 ≤ n ∧ n < 2 ^ 63 ∧ r = .int (Int64.ofInt n) := by
  unfold int?
  rw [Option.ite_none_right_eq_some, Option.some.injEq, and_assoc, eq_comm]

/-- An integer is read exactly where one is spelled that is in range. -/
theorem read?_eq_some_int_iff {text : List Char} {n : Int64} :
    read? text = some (.int n) ↔ IntegerText n.toInt text := by
  constructor
  · intro h
    rcases spelled_of_read? h with ⟨v, htext, hvalue⟩ | ⟨_, _, -, hr⟩
    · obtain ⟨hle, hlt, hn⟩ := int?_eq_some_iff.mp hvalue
      cases hn
      rwa [Int64.toInt_ofInt_of_le hle hlt]
    · contradiction
  · intro h
    rw [h.read?, int?_eq_some_iff, Int64.ofInt_toInt]
    exact ⟨n.le_toInt, n.toInt_lt, rfl⟩

/-- A float is read exactly where a decimal is spelled. -/
theorem read?_eq_some_float_iff {text : List Char} {x : Binary64} :
    read? text = some (.float x) ↔
      ∃ negative d, DecimalText negative d text ∧ x = .ofDecimal negative d := by
  constructor
  · intro h
    rcases spelled_of_read? h with ⟨v, -, hvalue⟩ | ⟨negative, d, htext, hr⟩
    · have hn := (int?_eq_some_iff.mp hvalue).2.2
      contradiction
    · cases hr
      exact ⟨negative, d, htext, rfl⟩
  · intro h
    obtain ⟨negative, d, htext, rfl⟩ := h
    exact htext.read?

/-! ## The text of an integer -/

theorem integerText_integerText (n : Int) : IntegerText n (integerText n) := by
  obtain ⟨sign, hsign, htext⟩ := exists_sign_signed (decide (n < 0))
  have hspelled := IntegerText.mk hsign Nat.toDigits_ne_nil (allDigits_toDigits n.natAbs)
  rwa [signedValue_toDigits, ← htext, ← integerText_eq] at hspelled

/-- The text of an integer is read as the integer. -/
theorem read?_intText (n : Int64) : read? (intText n) = some (.int n) :=
  read?_eq_some_int_iff.mpr (integerText_integerText n.toInt)

/-! ## The characters of numbers -/

/-- A digit, a sign, a point or the mark of an exponent, as numbers are written. -/
def IsNumeral (c : Char) : Prop := c.isDigit = true ∨ c = '-' ∨ c = '.' ∨ c = 'e'

instance (c : Char) : Decidable (IsNumeral c) :=
  inferInstanceAs (Decidable (c.isDigit = true ∨ c = '-' ∨ c = '.' ∨ c = 'e'))

theorem isNumeral_of_allDigits {digits : List Char} (h : AllDigits digits) :
    ∀ c ∈ digits, IsNumeral c := fun c hc => .inl (h c hc)

theorem isNumeral_signed {negative : Bool} {text : List Char} (h : ∀ c ∈ text, IsNumeral c) :
    ∀ c ∈ signed negative text, IsNumeral c := by
  intro c hc
  unfold signed at hc
  split at hc
  · rcases List.mem_cons.mp hc with rfl | hc
    · exact .inr (.inl rfl)
    · exact h c hc
  · exact h c hc

theorem isNumeral_integerText (n : Int) : ∀ c ∈ integerText n, IsNumeral c := by
  rw [integerText_eq]
  exact isNumeral_signed (isNumeral_of_allDigits (allDigits_toDigits _))

end Number
end SExpr
