import Mathlib.Data.List.Induction
import Mathlib.Tactic.SplitIfs
import SExpr.Text.StringLiteral

/-! # Hexadecimal forms

A code point escape may spell its number with digits in either letter case and with
zeros before them. These forms are described by way of the digits that the number has
in base 16, and `isHexadecimal_iff` says that a reader that adds up digit values takes
exactly these for the number. -/

namespace SExpr.StringLiteral

/-- The digits of `n` in either letter case, after any number of zeros. -/
def IsHexadecimal (n : Nat) (digits : List Char) : Prop :=
  ∃ zeros, digits.map Char.toLower = List.replicate zeros '0' ++ Nat.toDigits 16 n

/-! ## Digits -/

theorem toNat_toLower (c : Char) :
    c.toLower.toNat = if 65 ≤ c.toNat ∧ c.toNat ≤ 90 then c.toNat + 32 else c.toNat := by
  unfold Char.toLower
  split
  · rename_i h
    have hrange : 65 ≤ c.toNat ∧ c.toNat ≤ 90 := h
    rw [if_pos hrange]
    change (c.val + 32).toNat = c.val.toNat + 32
    have hle : c.val.toNat ≤ 90 := hrange.2
    rw [UInt32.toNat_add, Nat.mod_eq_of_lt (by simp; omega)]
    rfl
  · rename_i h
    have hrange : ¬ (65 ≤ c.toNat ∧ c.toNat ≤ 90) := h
    rw [if_neg hrange]

theorem toNat_digitChar {k : Nat} (h : k < 16) :
    (Nat.digitChar k).toNat = if k < 10 then k + 48 else k + 87 := by
  have hall : ∀ k < 16, (Nat.digitChar k).toNat = if k < 10 then k + 48 else k + 87 := by decide
  exact hall k h

theorem isHexDigit_iff (c : Char) : isHexDigit c = true ↔
    (48 ≤ c.toNat ∧ c.toNat ≤ 57) ∨ (97 ≤ c.toNat ∧ c.toNat ≤ 102) ∨
      (65 ≤ c.toNat ∧ c.toNat ≤ 70) := by
  simp only [isHexDigit, Char.isDigit, Bool.or_eq_true, Bool.and_eq_true, decide_eq_true_iff,
    or_assoc]
  rfl

theorem hexDigitValue_eq (c : Char) : hexDigitValue c =
    if 48 ≤ c.toNat ∧ c.toNat ≤ 57 then c.toNat - 48
    else if 97 ≤ c.toNat then c.toNat - 97 + 10 else c.toNat - 65 + 10 := by
  unfold hexDigitValue
  simp only [Char.isDigit, Bool.and_eq_true, decide_eq_true_iff]
  rfl

/-- The digits of value `k` are one letter or digit in either case. -/
theorem toLower_eq_digitChar_iff {c : Char} {k : Nat} (h : k < 16) :
    c.toLower = Nat.digitChar k ↔ isHexDigit c = true ∧ hexDigitValue c = k := by
  rw [← Char.toNat_inj, toNat_toLower, toNat_digitChar h, isHexDigit_iff, hexDigitValue_eq]
  split_ifs <;> omega

theorem hexDigitValue_lt {c : Char} (h : isHexDigit c = true) : hexDigitValue c < 16 := by
  rw [isHexDigit_iff] at h
  rw [hexDigitValue_eq]
  split_ifs <;> omega

/-! ## Numbers -/

theorem hexValue_concat (digits : List Char) (c : Char) :
    hexValue (digits ++ [c]) = 16 * hexValue digits + hexDigitValue c := by
  simp [hexValue]

/-- Zeros in front are worth nothing. -/
theorem hexValue_of_zeros {digits : List Char} {zeros : Nat}
    (h : digits.map Char.toLower = List.replicate zeros '0') :
    (∀ c ∈ digits, isHexDigit c = true) ∧ hexValue digits = 0 := by
  have hzero : ∀ c ∈ digits, isHexDigit c = true ∧ hexDigitValue c = 0 := by
    intro c hc
    have hmem : c.toLower ∈ List.replicate zeros '0' := h ▸ List.mem_map_of_mem hc
    exact (toLower_eq_digitChar_iff (by decide)).mp (List.eq_of_mem_replicate hmem)
  refine ⟨fun c hc => (hzero c hc).1, ?_⟩
  clear h
  induction digits using List.reverseRecOn with
  | nil => rfl
  | append_singleton digits c ih =>
    rw [hexValue_concat, ih fun d hd => hzero d (List.mem_append_left _ hd),
      (hzero c (by simp)).2]

/-- A form of `n` is a run of digits that is worth `n`. -/
theorem IsHexadecimal.hexValue_eq {n : Nat} {digits : List Char} (h : IsHexadecimal n digits) :
    digits ≠ [] ∧ (∀ c ∈ digits, isHexDigit c = true) ∧ hexValue digits = n := by
  obtain ⟨zeros, h⟩ := h
  induction n using Nat.strongRecOn generalizing digits with
  | ind n ih =>
    by_cases hn : n < 16
    · rw [Nat.toDigits_of_lt_base hn] at h
      obtain ⟨front, back, rfl, hfront, hback⟩ := List.map_eq_append_iff.mp h
      obtain ⟨c, rfl, hc⟩ := List.map_eq_singleton_iff.mp hback
      obtain ⟨hdigits, hvalue⟩ := hexValue_of_zeros hfront
      obtain ⟨hdigit, hlast⟩ := (toLower_eq_digitChar_iff hn).mp hc
      refine ⟨by simp, List.forall_mem_append.mpr ⟨hdigits, by simpa using hdigit⟩, ?_⟩
      rw [hexValue_concat, hvalue, hlast, Nat.mul_zero, Nat.zero_add]
    · rw [Nat.toDigits_of_base_le (by decide) (by omega), ← List.append_assoc] at h
      obtain ⟨front, back, rfl, hfront, hback⟩ := List.map_eq_append_iff.mp h
      obtain ⟨c, rfl, hc⟩ := List.map_eq_singleton_iff.mp hback
      obtain ⟨-, hdigits, hvalue⟩ := ih (n / 16) (by omega) hfront
      obtain ⟨hdigit, hlast⟩ := (toLower_eq_digitChar_iff (Nat.mod_lt _ (by decide))).mp hc
      refine ⟨by simp, List.forall_mem_append.mpr ⟨hdigits, by simpa using hdigit⟩, ?_⟩
      rw [hexValue_concat, hvalue, hlast, Nat.div_add_mod]

/-- Every run of digits is a form of what it is worth. -/
theorem isHexadecimal_hexValue {digits : List Char} (hne : digits ≠ [])
    (h : ∀ c ∈ digits, isHexDigit c = true) : IsHexadecimal (hexValue digits) digits := by
  induction digits using List.reverseRecOn with
  | nil => contradiction
  | append_singleton digits c ih =>
    obtain ⟨hdigits, hc⟩ := List.forall_mem_append.mp h
    have hdigit : isHexDigit c = true := hc c (by simp)
    have hlt := hexDigitValue_lt hdigit
    have hlast : c.toLower = Nat.digitChar (hexDigitValue c) :=
      (toLower_eq_digitChar_iff hlt).mpr ⟨hdigit, rfl⟩
    rw [hexValue_concat]
    by_cases hfirst : digits = []
    · subst hfirst
      refine ⟨0, ?_⟩
      simp [hexValue, hlast, Nat.toDigits_of_lt_base hlt]
    · obtain ⟨zeros, hforms⟩ := ih hfirst hdigits
      by_cases hvalue : hexValue digits = 0
      · -- the digit of the zero in front is one zero more
        refine ⟨zeros + 1, ?_⟩
        rw [hvalue] at hforms ⊢
        rw [List.map_append, hforms, Nat.mul_zero, Nat.zero_add, Nat.toDigits_of_lt_base hlt,
          List.map_singleton, hlast, List.replicate_succ']
        rfl
      · refine ⟨zeros, ?_⟩
        rw [List.map_append, hforms, List.map_singleton, hlast, List.append_assoc,
          ← Nat.toDigits_of_lt_base hlt,
          Nat.toDigits_append_toDigits (by decide) (Nat.pos_of_ne_zero hvalue) hlt]

theorem isHexadecimal_iff {n : Nat} {digits : List Char} :
    IsHexadecimal n digits ↔
      digits ≠ [] ∧ (∀ c ∈ digits, isHexDigit c = true) ∧ hexValue digits = n := by
  constructor
  · exact IsHexadecimal.hexValue_eq
  · intro h
    obtain ⟨hne, hdigits, rfl⟩ := h
    exact isHexadecimal_hexValue hne hdigits

end SExpr.StringLiteral
