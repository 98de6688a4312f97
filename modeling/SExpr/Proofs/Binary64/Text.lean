import SExpr.Binary64.Text
import SExpr.Proofs.Binary64.Nearest
import SExpr.Proofs.Number

/-! # Finite numbers read back

The shortest decimal of a number is rounded to that number: a neighbour is only
taken after it was tested, and the exact value that stands in for one is rounded
to itself. Its text is a spelling of that decimal wherever the point stands. -/

namespace SExpr

open Digits

namespace Binary64

/-- A number is its sign and its magnitude. -/
theorem ofMagnitude_magnitude (x : Binary64) : ofMagnitude x.isNegative x.magnitude = x := by
  obtain ⟨bits⟩ := x
  have hlt := bits.toNat_lt
  unfold ofMagnitude isNegative magnitude
  dsimp only
  congr 1
  rw [← UInt64.toNat_inj, UInt64.toNat_ofNat']
  by_cases h : 2 ^ 63 ≤ bits.toNat
  · rw [decide_eq_true h, if_pos rfl]
    omega
  · rw [decide_eq_false h, if_neg Bool.false_ne_true]
    omega

/-! ## The shortest decimal -/

theorem nearest_neighbour? {x : Binary64} {exponent : Int} {d : Decimal}
    (h : x.neighbour? exponent = some d) : d.nearest = x.magnitude := by
  unfold neighbour? at h
  dsimp only at h
  split at h
  · rename_i habove
    cases h
    simp only [Bool.and_eq_true, beq_iff_eq] at habove
    exact habove.1
  · split at h
    · rename_i hbelow
      cases h
      exact beq_iff_eq.mp hbelow
    · contradiction

/-- A count of halved halves is a decimal with as many places. -/
theorem nearest_halves (count k : Nat) :
    (⟨count * 5 ^ k, -(k : Int)⟩ : Decimal).nearest = nearest count (2 ^ k) := by
  have hplaces : (- -(k : Int)).toNat = k := by omega
  have hwhole : (-(k : Int)).toNat = 0 := by omega
  rw [Decimal.nearest_eq]
  dsimp only
  rw [hplaces, hwhole, Nat.pow_zero, Nat.mul_one]
  apply nearest_congr (Nat.pow_pos (by decide)) (Nat.two_pow_pos k)
  rw [Nat.mul_assoc, ← Nat.mul_pow]

theorem nearest_exactDecimal {x : Binary64} (h : x.isFinite = true) :
    x.exactDecimal.nearest = x.magnitude :=
  (nearest_halves x.steps 1074).trans (nearest_steps h)

theorem shortest_cases (x : Binary64) :
    x.shortest = x.exactDecimal ∨ x.shortest.nearest = x.magnitude := by
  unfold shortest
  dsimp only
  cases hfind : (List.range 17).findSome? fun more =>
      x.neighbour? (x.leadingExponent - (more : Nat)) with
  | none => exact .inl rfl
  | some d =>
    obtain ⟨more, -, hmore⟩ := List.exists_of_findSome?_eq_some hfind
    exact .inr (nearest_neighbour? hmore)

theorem nearest_shortest {x : Binary64} (h : x.isFinite = true) :
    x.shortest.nearest = x.magnitude := by
  rcases shortest_cases x with hshortest | hnearest
  · rw [hshortest, nearest_exactDecimal h]
  · exact hnearest

/-! ## Spellings of a decimal -/

/-- Digits around a point, perhaps with an exponent, that are rounded as the
decimal is. -/
inductive Spelled (d : Decimal) : List Char → Prop
  | point {whole places mark : List Char} {exponent : Int} : AllDigits whole → whole ≠ [] →
      AllDigits places → mark = [] ∧ exponent = 0 ∨ mark = 'e' :: integerText exponent →
      (⟨value (whole ++ places), exponent - places.length⟩ : Decimal).nearest = d.nearest →
      Spelled d (whole ++ '.' :: (places ++ mark))

theorem Spelled.congr {d d' : Decimal} {text : List Char} (h : Spelled d text)
    (hd : d.nearest = d'.nearest) : Spelled d' text := by
  cases h with
  | point hwhole hne hplaces hmark hnearest =>
    exact .point hwhole hne hplaces hmark (hnearest.trans hd)

/-- A sign and what spells a decimal are a text of the grammar. -/
theorem Spelled.decimalText {d : Decimal} {text : List Char} (h : Spelled d text)
    (negative : Bool) :
    ∃ d', Number.DecimalText negative d' (signed negative text) ∧ d'.nearest = d.nearest := by
  cases h with
  | @point whole places mark exponent hwhole hne hplaces hmark hnearest =>
    obtain ⟨sign, hsign, htext⟩ := exists_sign_signed negative
    have hexponent : Number.ExponentText exponent mark := by
      rcases hmark with ⟨rfl, rfl⟩ | rfl
      · exact .absent
      · exact .mk (.inl rfl) (Number.integerText_integerText exponent)
    have hspelled := Number.DecimalText.mk hsign (.whole hne hwhole hplaces) hexponent
    rw [List.append_assoc, List.cons_append, ← htext] at hspelled
    exact ⟨_, hspelled, hnearest⟩

theorem Spelled.read? {d : Decimal} {text : List Char} (h : Spelled d text) (negative : Bool) :
    Number.read? (signed negative text) = some (.float (.ofMagnitude negative d.nearest)) := by
  obtain ⟨d', htext, hnearest⟩ := h.decimalText negative
  rw [htext.read?, ofDecimal, hnearest]

theorem Spelled.isNumeral {d : Decimal} {text : List Char} (h : Spelled d text) :
    ∀ c ∈ text, Number.IsNumeral c := by
  cases h with
  | point hwhole _ hplaces hmark _ =>
    intro c hc
    rcases List.mem_append.mp hc with hc | hc
    · exact .inl (hwhole c hc)
    rcases List.mem_cons.mp hc with rfl | hc
    · exact .inr (.inr (.inl rfl))
    rcases List.mem_append.mp hc with hc | hc
    · exact .inl (hplaces c hc)
    rcases hmark with ⟨rfl, -⟩ | rfl
    · contradiction
    rcases List.mem_cons.mp hc with rfl | hc
    · exact .inr (.inr (.inr rfl))
    · exact Number.isNumeral_integerText _ c hc

/-- At least one digit: perhaps a zero more than there were. -/
theorem orZero_eq (digits : List Char) :
    ∃ zeros, orZero digits = digits ++ List.replicate zeros '0' ∧ orZero digits ≠ [] := by
  unfold orZero
  cases digits with
  | nil => exact ⟨1, rfl, List.cons_ne_nil _ _⟩
  | cons c rest => exact ⟨0, by simp, List.cons_ne_nil _ _⟩

/-- The digits may be cut anywhere and may be followed by zeros. -/
theorem Spelled.of_cut {digits front back mark : List Char} {leading exponent : Int} {zeros : Nat}
    (hdigits : AllDigits digits) (hcut : front ++ back = digits ++ List.replicate zeros '0')
    (hfront : front ≠ []) (hmark : mark = [] ∧ exponent = 0 ∨ mark = 'e' :: integerText exponent)
    (hplace : exponent + front.length = leading + 1) :
    Spelled ⟨value digits, leading + 1 - digits.length⟩ (front ++ '.' :: (back ++ mark)) := by
  have hall : AllDigits (front ++ back) := hcut ▸ hdigits.append (allDigits_zeros zeros)
  have hlength : front.length + back.length = digits.length + zeros := by
    rw [← List.length_append, hcut, List.length_append, List.length_replicate]
  have hexponent : exponent - back.length = leading + 1 - digits.length - zeros := by omega
  refine .point (fun c hc => hall c (List.mem_append_left _ hc)) hfront
    (fun c hc => hall c (List.mem_append_right _ hc)) hmark ?_
  rw [hcut, value_append_zeros, hexponent, Decimal.nearest_shift]

section
variable {digits : List Char} (hdigits : AllDigits digits)
include hdigits

theorem spelled_withExponent (hne : digits ≠ []) (leading : Int) :
    Spelled ⟨value digits, leading + 1 - digits.length⟩ (withExponent digits leading) := by
  obtain ⟨c, rest, rfl⟩ := List.exists_cons_of_ne_nil hne
  obtain ⟨zeros, hzeros, -⟩ := orZero_eq rest
  have hcut : [c] ++ orZero rest = c :: rest ++ List.replicate zeros '0' := by rw [hzeros]; rfl
  have hspelled := Spelled.of_cut hdigits hcut (List.cons_ne_nil _ _)
    (.inr (rfl : _ = 'e' :: integerText leading)) rfl
  simpa [withExponent, orZero] using hspelled

/-- A number from one up: its point stands in the digits or behind them. -/
theorem spelled_positional_of_nonneg {leading : Int} (h : 0 ≤ leading) :
    Spelled ⟨value digits, leading + 1 - digits.length⟩ (positional digits leading) := by
  have hwhole : ((leading.toNat + 1 : Nat) : Int) = leading + 1 := by omega
  unfold positional
  rw [if_neg (by omega)]
  dsimp only
  generalize leading.toNat + 1 = whole at *
  obtain ⟨zeros, hzeros, -⟩ := orZero_eq (digits.drop whole)
  have hlength :
      (digits.take whole ++ List.replicate (whole - digits.length) '0').length = whole := by
    rw [List.length_append, List.length_take, List.length_replicate]
    omega
  have hcut : digits.take whole ++ List.replicate (whole - digits.length) '0' ++
      orZero (digits.drop whole) =
        digits ++ List.replicate (whole - digits.length + zeros) '0' := by
    rw [hzeros]
    -- there are no zeros to fill up with, or there is nothing behind them
    rcases Nat.le_total digits.length whole with hle | hle
    · rw [List.take_of_length_le hle, List.drop_of_length_le hle, List.nil_append,
        List.append_assoc, List.replicate_append_replicate]
    · rw [Nat.sub_eq_zero_of_le hle, List.replicate_zero, List.append_nil, ← List.append_assoc,
        List.take_append_drop, Nat.zero_add]
  have hfront : digits.take whole ++ List.replicate (whole - digits.length) '0' ≠ [] := by
    rw [← List.length_pos_iff, hlength]
    omega
  have hplace :
      0 + ((digits.take whole ++ List.replicate (whole - digits.length) '0').length : Int) =
        leading + 1 := by
    rw [hlength]
    omega
  have hspelled := Spelled.of_cut hdigits hcut hfront (.inl ⟨rfl, rfl⟩) hplace
  rwa [List.append_nil] at hspelled

/-- A number below one: zeros come before its digits. -/
theorem spelled_positional_of_neg {leading : Int} (h : leading < 0) :
    Spelled ⟨value digits, leading + 1 - digits.length⟩ (positional digits leading) := by
  unfold positional
  rw [if_pos h]
  generalize hzeros : (-leading - 1).toNat = zeros
  have hspelled : Spelled ⟨value digits, leading + 1 - digits.length⟩
      (['0'] ++ '.' :: ((List.replicate zeros '0' ++ digits) ++ [])) := by
    refine .point (allDigits_zeros 1) (List.cons_ne_nil _ _)
      ((allDigits_zeros zeros).append hdigits) (.inl ⟨rfl, rfl⟩) ?_
    have hvalue : value (['0'] ++ (List.replicate zeros '0' ++ digits)) = value digits := by
      rw [← List.append_assoc, value_append, show ['0'] = List.replicate 1 '0' from rfl,
        List.replicate_append_replicate, value_zeros, Nat.zero_mul, Nat.zero_add]
    rw [hvalue, List.length_append, List.length_replicate]
    congr 2
    omega
  simpa using hspelled

theorem spelled_positional (leading : Int) :
    Spelled ⟨value digits, leading + 1 - digits.length⟩ (positional digits leading) := by
  rcases Int.lt_or_le leading 0 with h | h
  · exact spelled_positional_of_neg hdigits h
  · exact spelled_positional_of_nonneg hdigits h

end

/-! ## The text of a number -/

theorem dropTrailingZeros_append (digits : List Char) :
    ∃ zeros, digits = dropTrailingZeros digits ++ List.replicate zeros '0' := by
  refine ⟨(digits.reverse.takeWhile (· == '0')).length, ?_⟩
  have hzeros : digits.reverse.takeWhile (· == '0') =
      List.replicate (digits.reverse.takeWhile (· == '0')).length '0' :=
    List.eq_replicate_of_mem fun c hc => by
      simpa using List.all_eq_true.mp List.all_takeWhile c hc
  have hsplit := List.takeWhile_append_dropWhile (p := (· == '0')) (l := digits.reverse)
  rw [← List.reverse_replicate, ← hzeros, dropTrailingZeros, ← List.reverse_append, hsplit,
    List.reverse_reverse]

/-- The text of a decimal spells it. -/
theorem spelled_decimalText {d : Decimal} (h : d.digits ≠ 0) : Spelled d (decimalText d) := by
  obtain ⟨zeros, hall⟩ := dropTrailingZeros_append (Nat.toDigits 10 d.digits)
  have hdigits : AllDigits (dropTrailingZeros (Nat.toDigits 10 d.digits)) := fun c hc =>
    allDigits_toDigits d.digits c (hall ▸ List.mem_append_left _ hc)
  have hvalue := value_toDigits d.digits
  have hlength := congrArg List.length hall
  rw [List.length_append, List.length_replicate] at hlength
  unfold decimalText
  dsimp only
  generalize dropTrailingZeros (Nat.toDigits 10 d.digits) = digits at *
  rw [hall, value_append_zeros] at hvalue
  have hne : digits ≠ [] := by
    intro hnil
    rw [hnil] at hvalue
    exact h (by rw [← hvalue]; simp [value])
  generalize hleading : d.exponent + (Nat.toDigits 10 d.digits).length - 1 = leading
  -- the digits without their zeros make the same decimal
  have hnearest : (⟨value digits, leading + 1 - digits.length⟩ : Decimal).nearest = d.nearest := by
    have hshift := Decimal.nearest_shift (value digits) zeros (leading + 1 - digits.length)
    rw [hvalue, show leading + 1 - digits.length - zeros = d.exponent by omega] at hshift
    exact hshift.symm
  split
  · exact (spelled_positional hdigits leading).congr hnearest
  · exact (spelled_withExponent hdigits hne leading).congr hnearest

theorem text_eq (x : Binary64) : x.text =
    signed x.isNegative (if x.magnitude = 0 then ['0', '.', '0'] else decimalText x.shortest) := rfl

theorem steps_ne_zero {x : Binary64} (h : x.magnitude ≠ 0) : x.steps ≠ 0 := by
  have hsplit := Nat.div_add_mod x.magnitude (2 ^ 52)
  unfold steps
  dsimp only
  split
  · rename_i hexponent
    rw [hexponent] at hsplit
    omega
  · exact Nat.mul_ne_zero (by omega) (Nat.ne_of_gt (Nat.two_pow_pos _))

theorem digits_shortest_ne_zero {x : Binary64} (h : x.magnitude ≠ 0) : x.shortest.digits ≠ 0 := by
  rcases shortest_cases x with hshortest | hnearest
  · rw [hshortest]
    have hpow : ∀ k, 5 ^ k ≠ 0 := fun k => Nat.ne_of_gt (Nat.pow_pos (by decide))
    exact Nat.mul_ne_zero (steps_ne_zero h) (hpow 1074)
  · intro hdigits
    rw [Decimal.nearest_of_digits_eq_zero hdigits] at hnearest
    exact h hnearest.symm

/-- The text of a number spells a decimal after its sign, and the decimal of a
finite number is rounded to its magnitude. -/
theorem exists_spelled (x : Binary64) :
    ∃ d absolute, x.text = signed x.isNegative absolute ∧ Spelled d absolute ∧
      (x.isFinite = true → d.nearest = x.magnitude) := by
  by_cases hzero : x.magnitude = 0
  · refine ⟨⟨0, 0⟩, ['0'] ++ '.' :: (['0'] ++ []), ?_, ?_, fun _ => hzero.symm⟩
    · rw [text_eq, if_pos hzero]
      rfl
    · refine .point (allDigits_zeros 1) (List.cons_ne_nil _ _) (allDigits_zeros 1)
        (.inl ⟨rfl, rfl⟩) ?_
      rw [Decimal.nearest_of_digits_eq_zero rfl, Decimal.nearest_of_digits_eq_zero rfl]
  · exact ⟨x.shortest, _, by rw [text_eq, if_neg hzero],
      spelled_decimalText (digits_shortest_ne_zero hzero), nearest_shortest⟩

/-- The text of a finite number is read as the number. -/
theorem read?_text {x : Binary64} (h : x.isFinite = true) :
    Number.read? x.text = some (.float x) := by
  obtain ⟨d, absolute, htext, hspelled, hnearest⟩ := exists_spelled x
  rw [htext, hspelled.read?, hnearest h, ofMagnitude_magnitude]

theorem isNumeral_text (x : Binary64) : ∀ c ∈ x.text, Number.IsNumeral c := by
  obtain ⟨d, absolute, htext, hspelled, -⟩ := exists_spelled x
  rw [htext]
  exact Number.isNumeral_signed hspelled.isNumeral

end Binary64
end SExpr
