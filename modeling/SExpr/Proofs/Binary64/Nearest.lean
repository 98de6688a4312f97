import SExpr.Binary64.Decimal

/-! # Rounding to the nearest number

`nearest` depends on the quotient alone and finds every finite number again. What
a decimal is rounded to is then a matter of its value: the two limits beyond which
no power of ten is computed lie where the quotient overflows or vanishes anyway. -/

namespace SExpr

namespace Binary64

/-! ## Whole numbers -/

theorem roundDiv_mul_right (num den : Nat) {c : Nat} (hc : 0 < c) :
    roundDiv (num * c) (den * c) = roundDiv num den := by
  have hlt : 2 * (num % den * c) < den * c ↔ 2 * (num % den) < den := by
    rw [← Nat.mul_assoc, Nat.mul_lt_mul_right hc]
  have hgt : den * c < 2 * (num % den * c) ↔ den < 2 * (num % den) := by
    rw [← Nat.mul_assoc, Nat.mul_lt_mul_right hc]
  simp only [roundDiv, Nat.mul_div_mul_right _ _ hc, Nat.mul_mod_mul_right, hlt, hgt]

theorem roundDiv_mul_self (q : Nat) {den : Nat} (hden : 0 < den) :
    roundDiv (q * den) den = q := by
  simp [roundDiv, Nat.mul_div_cancel _ hden, hden]

theorem div_le_roundDiv (num den : Nat) : num / den ≤ roundDiv num den := by
  unfold roundDiv
  dsimp only
  split
  · exact Nat.le_refl _
  · split
    · exact Nat.le_succ _
    · exact Nat.le_add_right _ _

theorem roundDiv_eq_zero {num den : Nat} (h : 2 * num < den) : roundDiv num den = 0 := by
  have hlt : num < den := by omega
  simp [roundDiv, Nat.div_eq_of_lt hlt, Nat.mod_eq_of_lt hlt, h]

/-! ## Quotients -/

theorem nearest_mul_right (num den : Nat) {c : Nat} (hc : 0 < c) :
    nearest (num * c) (den * c) = nearest num den := by
  have hnum : num * c * 2 ^ 1074 = num * 2 ^ 1074 * c := Nat.mul_right_comm _ _ _
  have hden : ∀ k, den * c * 2 ^ k = den * 2 ^ k * c := fun k => Nat.mul_right_comm _ _ _
  simp only [nearest, hnum, hden, Nat.mul_div_mul_right _ _ hc, roundDiv_mul_right _ _ hc]

/-- Equal quotients have the same nearest number. -/
theorem nearest_congr {num den num' den' : Nat} (hden : 0 < den) (hden' : 0 < den')
    (h : num * den' = num' * den) : nearest num den = nearest num' den' := by
  rw [← nearest_mul_right num den hden', h, Nat.mul_comm den den', nearest_mul_right _ _ hden]

/-- A quotient below half the least step vanishes. -/
theorem nearest_eq_zero {num den : Nat} (h : 2 * (num * 2 ^ 1074) < den) :
    nearest num den = 0 := by
  unfold nearest
  generalize num * 2 ^ 1074 = scaled at *
  have hlt : scaled < den := by omega
  simp only [Nat.div_eq_of_lt hlt, Nat.log2_zero, Nat.zero_sub, Nat.zero_mul, Nat.pow_zero,
    Nat.mul_one, roundDiv_eq_zero h, Nat.zero_add, Nat.min_zero]

theorem le_log2_quotient {num den : Nat} (hden : 0 < den) (j k : Nat) (h : 2 ^ j * den ≤ num) :
    num * 2 ^ k / den ≠ 0 ∧ j + k ≤ (num * 2 ^ k / den).log2 := by
  have hquotient : 2 ^ (j + k) ≤ num * 2 ^ k / den := by
    rw [Nat.le_div_iff_mul_le hden, Nat.pow_add, Nat.mul_right_comm]
    exact Nat.mul_le_mul_right _ h
  have hpos := Nat.ne_of_gt (Nat.lt_of_lt_of_le (Nat.two_pow_pos _) hquotient)
  exact ⟨hpos, (Nat.le_log2 hpos).mpr hquotient⟩

/-- A quotient of `2 ^ 1024` or more overflows. -/
theorem nearest_eq_infinite {num den : Nat} (hden : 0 < den) (h : 2 ^ 1024 * den ≤ num) :
    nearest num den = infinite := by
  obtain ⟨hpos, hlog⟩ := le_log2_quotient hden 1024 1074 h
  unfold nearest
  dsimp only
  clear h
  generalize num * 2 ^ 1074 = scaled at *
  have hself := Nat.log2_self_le hpos
  generalize hd : (scaled / den).log2 - 52 = dropped
  -- the bits that are kept number fifty-three
  have hkept : 2 ^ 52 ≤ scaled / (den * 2 ^ dropped) := by
    rw [← Nat.div_div_eq_div_mul, Nat.le_div_iff_mul_le (Nat.two_pow_pos _), ← Nat.pow_add]
    rwa [show 52 + dropped = (scaled / den).log2 by omega]
  have hround := Nat.le_trans hkept (div_le_roundDiv _ _)
  apply Nat.min_eq_left
  unfold infinite
  generalize roundDiv scaled (den * 2 ^ dropped) = rounded at *
  omega

/-- Numbers of fifty-three bits keep that many behind a power of two. -/
theorem log2_mul_two_pow {m : Nat} (hle : 2 ^ 52 ≤ m) (hlt : m < 2 ^ 53) (k : Nat) :
    (m * 2 ^ k).log2 = 52 + k := by
  have hpos : m ≠ 0 := Nat.ne_of_gt (Nat.lt_of_lt_of_le (Nat.two_pow_pos _) hle)
  rw [Nat.log2_eq_iff (Nat.mul_ne_zero hpos (Nat.ne_of_gt (Nat.two_pow_pos _))), Nat.pow_add,
    Nat.add_right_comm, Nat.pow_add]
  exact ⟨Nat.mul_le_mul_right _ hle, Nat.mul_lt_mul_of_pos_right hlt (Nat.two_pow_pos _)⟩

/-- A finite number is nearest to itself. -/
theorem nearest_steps {x : Binary64} (h : x.isFinite = true) :
    nearest x.steps (2 ^ 1074) = x.magnitude := by
  have hfinite : x.magnitude < infinite := by simpa [isFinite] using h
  have hsplit := Nat.div_add_mod x.magnitude (2 ^ 52)
  have hfraction := Nat.mod_lt x.magnitude (Nat.two_pow_pos 52)
  unfold nearest
  generalize 1074 = k
  have hpos := Nat.two_pow_pos k
  simp only [steps, Nat.mul_div_cancel _ hpos]
  generalize x.magnitude / 2 ^ 52 = exponent at *
  generalize x.magnitude % 2 ^ 52 = fraction at *
  by_cases hexponent : exponent = 0
  · have hdropped : fraction.log2 - 52 = 0 := by
      by_cases hzero : fraction = 0
      · simp [hzero]
      · have := (Nat.log2_lt hzero).mpr hfraction
        omega
    simp only [if_pos hexponent, hdropped, Nat.pow_zero, Nat.mul_one, roundDiv_mul_self _ hpos,
      Nat.zero_mul, Nat.zero_add]
    rw [Nat.min_eq_right] <;> omega
  · have hlog := log2_mul_two_pow (Nat.le_add_right (2 ^ 52) fraction) (by omega) (exponent - 1)
    have hscaled : (2 ^ 52 + fraction) * 2 ^ (exponent - 1) * 2 ^ k =
        (2 ^ 52 + fraction) * (2 ^ k * 2 ^ (exponent - 1)) := by
      rw [Nat.mul_assoc, Nat.mul_comm (2 ^ k)]
    rw [if_neg hexponent, hlog, Nat.add_sub_cancel_left, hscaled,
      roundDiv_mul_self _ (Nat.mul_pos hpos (Nat.two_pow_pos _)), Nat.min_eq_right] <;> omega

end Binary64

/-! ## Decimals -/

namespace Decimal

theorem ten_pow_pos (k : Nat) : 0 < 10 ^ k := Nat.pow_pos (by decide)

theorem nearest_eq_infinite_of_large {digits exponent : Nat} (hpos : digits ≠ 0)
    (h : 310 < exponent) : Binary64.nearest (digits * 10 ^ exponent) 1 = Binary64.infinite := by
  obtain ⟨k, hle, hpower⟩ : ∃ k, k ≤ exponent ∧ 2 ^ 1024 ≤ 10 ^ k :=
    ⟨311, h, by decide +kernel⟩
  apply Binary64.nearest_eq_infinite Nat.one_pos
  generalize 1024 = bits at *
  rw [Nat.mul_one]
  calc 2 ^ bits ≤ 10 ^ k := hpower
    _ ≤ 10 ^ exponent := Nat.pow_le_pow_right (by decide) hle
    _ ≤ digits * 10 ^ exponent := Nat.le_mul_of_pos_left _ (Nat.pos_of_ne_zero hpos)

theorem nearest_eq_zero_of_small {digits exponent : Nat} (h : digits.log2 + 400 < exponent) :
    Binary64.nearest digits (10 ^ exponent) = 0 := by
  obtain ⟨k, hle, hpower⟩ : ∃ k, digits.log2 + 1 + k ≤ exponent ∧ 2 * 2 ^ 1074 ≤ 10 ^ k :=
    ⟨400, by omega, by decide +kernel⟩
  apply Binary64.nearest_eq_zero
  rw [Nat.mul_left_comm]
  generalize 1074 = places at *
  calc digits * (2 * 2 ^ places) < 2 ^ (digits.log2 + 1) * (2 * 2 ^ places) :=
        Nat.mul_lt_mul_of_pos_right Nat.lt_log2_self
          (Nat.mul_pos (by decide) (Nat.two_pow_pos places))
    _ ≤ 10 ^ (digits.log2 + 1) * 10 ^ k :=
        Nat.mul_le_mul (Nat.pow_le_pow_left (by decide) _) hpower
    _ = 10 ^ (digits.log2 + 1 + k) := (Nat.pow_add _ _ _).symm
    _ ≤ 10 ^ exponent := Nat.pow_le_pow_right (by decide) hle

/-- What a decimal is rounded to depends on its value alone. -/
theorem nearest_eq (d : Decimal) :
    d.nearest = Binary64.nearest (d.digits * 10 ^ d.exponent.toNat) (10 ^ (-d.exponent).toNat) := by
  obtain ⟨digits, exponent⟩ := d
  unfold Decimal.nearest
  dsimp only
  by_cases hzero : digits = 0
  · have hvanish : Binary64.nearest 0 (10 ^ (-exponent).toNat) = 0 := by
      apply Binary64.nearest_eq_zero
      generalize 1074 = places
      rw [Nat.zero_mul]
      exact ten_pow_pos _
    rw [if_pos hzero, hzero, Nat.zero_mul, hvanish]
  rw [if_neg hzero]
  by_cases hsign : 0 ≤ exponent
  · have hden : (-exponent).toNat = 0 := by omega
    rw [hden, Nat.pow_zero]
    by_cases hlarge : 310 < exponent
    · rw [if_pos hlarge, nearest_eq_infinite_of_large hzero (by omega)]
    · rw [if_neg hlarge, if_neg (by omega), if_pos hsign]
  · have hnum : exponent.toNat = 0 := by omega
    rw [hnum, Nat.pow_zero, Nat.mul_one, if_neg (by omega)]
    by_cases hsmall : exponent < -(digits.log2 : Int) - 400
    · rw [if_pos hsmall, nearest_eq_zero_of_small (by omega)]
    · rw [if_neg hsmall, if_neg hsign]

theorem nearest_of_digits_eq_zero {d : Decimal} (h : d.digits = 0) : d.nearest = 0 := by
  rw [Decimal.nearest, if_pos h]

/-- Zeros at the end of the digits may go to the exponent. -/
theorem nearest_shift (digits places : Nat) (exponent : Int) :
    (⟨digits * 10 ^ places, exponent - places⟩ : Decimal).nearest =
      (⟨digits, exponent⟩ : Decimal).nearest := by
  rw [nearest_eq, nearest_eq]
  dsimp only
  apply Binary64.nearest_congr (ten_pow_pos _) (ten_pow_pos _)
  rw [Nat.mul_assoc, Nat.mul_assoc, Nat.mul_assoc, ← Nat.pow_add, ← Nat.pow_add, ← Nat.pow_add]
  congr 2
  omega

end Decimal
end SExpr
