import SExpr.Proofs.Binary64.Text
import SExpr.Proofs.Print.Layout

/-! # Numbers, as they are read and as they are printed

The grammar and the range of the integers decide which texts are numbers. Whatever
is printed for an integer or a finite float is such a text, and it is read as that
number: a float is never taken for an integer, nor for a symbol. -/

namespace SExpr

open Digits

theorem Digits.AllDigits.getLast? {digits : List Char} (h : AllDigits digits) (hne : digits ≠ [])
    (front : List Char) : ∃ c ∈ (front ++ digits).getLast?, c.isDigit = true := by
  have hlast : (front ++ digits).getLast? = some (digits.getLast hne) := by
    rw [List.getLast?_append, List.getLast?_eq_some_getLast hne, Option.some_or]
  exact ⟨_, hlast, h _ (List.getLast_mem hne)⟩

namespace Number

/-! ## What a number can not do without -/

/-- There is a digit, a point if there is the mark of an exponent, and at the end
there is a digit or the point. -/
structure Numeric (text : List Char) : Prop where
  digit : ∃ c ∈ text, c.isDigit = true
  point : 'e' ∈ text ∨ 'E' ∈ text → '.' ∈ text
  last : ∃ c ∈ text.getLast?, c.isDigit = true ∨ c = '.'

theorem IntegerText.getLast? {n : Int} {text : List Char} (h : IntegerText n text)
    (front : List Char) : ∃ c ∈ (front ++ text).getLast?, c.isDigit = true := by
  cases h with
  | @mk _ sign digits _ hne hdigits =>
    rw [← List.append_assoc]
    exact hdigits.getLast? hne (front ++ sign)

theorem IntegerText.not_mem_mark {n : Int} {text : List Char} (h : IntegerText n text)
    {c : Char} (hc : c = 'e' ∨ c = 'E') : c ∉ text := by
  intro hmem
  cases h with
  | mk hsign _ hdigits =>
    rcases List.mem_append.mp hmem with hmem | hmem
    · rcases hc with rfl | rfl <;> cases hsign <;> simp at hmem
    · have hdigit := hdigits c hmem
      rcases hc with rfl | rfl <;> contradiction

theorem Mantissa.exists_isDigit {whole places text : List Char} (h : Mantissa whole places text) :
    ∃ c ∈ text, c.isDigit = true := by
  cases h with
  | whole hne hwhole _ =>
    exact ⟨whole.head hne, List.mem_append_left _ (List.head_mem hne), hwhole _ (List.head_mem hne)⟩
  | places hne hplaces =>
    exact ⟨places.head hne, List.mem_cons_of_mem _ (List.head_mem hne),
      hplaces _ (List.head_mem hne)⟩

theorem Mantissa.getLast? {whole places text : List Char} (h : Mantissa whole places text)
    (front : List Char) : ∃ c ∈ (front ++ text).getLast?, c.isDigit = true ∨ c = '.' := by
  obtain ⟨rfl, -⟩ := h.text_eq
  have hfront : front ++ (whole ++ '.' :: places) = (front ++ whole ++ ['.']) ++ places := by simp
  rw [hfront]
  by_cases hne : places = []
  · subst hne
    exact ⟨'.', by simp, .inr rfl⟩
  · obtain ⟨c, hlast, hdigit⟩ := h.allDigits.2.getLast? hne (front ++ whole ++ ['.'])
    exact ⟨c, hlast, .inl hdigit⟩

theorem IntegerText.numeric {n : Int} {text : List Char} (h : IntegerText n text) :
    Numeric text := by
  obtain ⟨c, hlast, hdigit⟩ := h.getLast? []
  refine ⟨⟨c, List.mem_of_getLast? hlast, hdigit⟩, ?_, ⟨c, hlast, .inl hdigit⟩⟩
  rintro (hmark | hmark)
  · exact absurd hmark (h.not_mem_mark (.inl rfl))
  · exact absurd hmark (h.not_mem_mark (.inr rfl))

theorem DecimalText.numeric {negative : Bool} {d : Decimal} {text : List Char}
    (h : DecimalText negative d text) : Numeric text := by
  cases h with
  | @mk sign whole places mantissa mark exponent hsign hmantissa hexponent =>
    obtain ⟨c, hmem, hdigit⟩ := hmantissa.exists_isDigit
    have hpoint : '.' ∈ mantissa := by simp [hmantissa.text_eq.1]
    refine ⟨⟨c, by simp [hmem], hdigit⟩, fun _ => by simp [hpoint], ?_⟩
    cases hexponent with
    | absent =>
      rw [List.append_nil]
      exact hmantissa.getLast? sign
    | @mk mark _ text _ htext =>
      have hfront : sign ++ (mantissa ++ mark :: text) = (sign ++ mantissa ++ [mark]) ++ text := by
        simp
      obtain ⟨c, hlast, hdigit⟩ := htext.getLast? (sign ++ mantissa ++ [mark])
      rw [hfront]
      exact ⟨c, hlast, .inl hdigit⟩

theorem numeric_of_read? {text : List Char} {r : Number} (h : read? text = some r) :
    Numeric text := by
  rcases spelled_of_read? h with ⟨n, htext, -⟩ | ⟨negative, d, htext, -⟩
  · exact htext.numeric
  · exact htext.numeric

/-! ## Exactly the grammar -/

/-- In range, an integer is spelled exactly where one of that value is read. -/
theorem exists_read?_iff {text : List Char} {v : Int} :
    (∃ n : Int64, n.toInt = v ∧ read? text = some (.int n)) ↔
      IntegerText v text ∧ -2 ^ 63 ≤ v ∧ v ≤ 2 ^ 63 - 1 := by
  constructor
  · rintro ⟨n, rfl, hread⟩
    have hlt := n.toInt_lt
    exact ⟨read?_eq_some_int_iff.mp hread, n.le_toInt, by omega⟩
  · rintro ⟨htext, hle, hge⟩
    have hn : (Int64.ofInt v).toInt = v := Int64.toInt_ofInt_of_le hle (by omega)
    exact ⟨_, hn, read?_eq_some_int_iff.mpr (hn.symm ▸ htext)⟩

theorem read?_eq_none_iff {text : List Char} :
    read? text = none ↔ (∀ v, IntegerText v text → v < -2 ^ 63 ∨ 2 ^ 63 - 1 < v) ∧
      ∀ negative d, ¬ DecimalText negative d text := by
  constructor
  · intro h
    refine ⟨fun v htext => ?_, fun negative d htext => ?_⟩
    · by_cases hrange : -2 ^ 63 ≤ v ∧ v ≤ 2 ^ 63 - 1
      · obtain ⟨n, -, hread⟩ := exists_read?_iff.mpr ⟨htext, hrange⟩
        rw [h] at hread
        contradiction
      · omega
    · have hread := htext.read?
      rw [h] at hread
      contradiction
  · rintro ⟨hinteger, hdecimal⟩
    cases hread : read? text with
    | none => rfl
    | some r =>
      rcases spelled_of_read? hread with ⟨v, htext, hvalue⟩ | ⟨negative, d, htext, -⟩
      · obtain ⟨hle, hlt, -⟩ := int?_eq_some_iff.mp hvalue
        have hout := hinteger v htext
        omega
      · exact absurd htext (hdecimal negative d)

end Number

/-! ## Numbers that are printed -/

theorem Writer.print_int [Display] (w : Writer) (n : Int64) :
    w.print (.int n) = .ok (.ofList (Number.intText n)) :=
  congrArg Except.ok (w.render_atom _)

theorem Writer.print_float [Display] (w : Writer) {x : Binary64} (h : x.isFinite = true) :
    w.print (.float x) = .ok (.ofList x.text) := by
  rw [print_eq_ok_iff]
  exact ⟨_, Writer.float_eq_ok_iff.mpr ⟨h, rfl⟩, (w.render_atom _).symm⟩

/-- An integer is read from a sign or none and digits whose value is in the range of
64 bits, a float from what the grammar calls a decimal, and nothing from any other
text. The text printed for an integer or for a finite float is read as just that
number. -/
theorem number_grammar [Display] :
    (∀ text v, (∃ n : Int64, n.toInt = v ∧ Number.read? text = some (.int n)) ↔
      Number.IntegerText v text ∧ -2 ^ 63 ≤ v ∧ v ≤ 2 ^ 63 - 1) ∧
    (∀ text x, Number.read? text = some (.float x) ↔
      ∃ negative d, Number.DecimalText negative d text ∧ x = .ofDecimal negative d) ∧
    (∀ text, Number.read? text = none ↔
      (∀ v, Number.IntegerText v text → v < -2 ^ 63 ∨ 2 ^ 63 - 1 < v) ∧
        ∀ negative d, ¬ Number.DecimalText negative d text) ∧
    (∀ text, ¬ Number.Numeric text → Number.read? text = none) ∧
    (∀ (w : Writer) (n : Int64), ∃ text, w.print (.int n) = .ok text ∧
      Number.read? text.toList = some (.int n)) ∧
    ∀ (w : Writer) (x : Binary64), x.isFinite = true → ∃ text, w.print (.float x) = .ok text ∧
      Number.read? text.toList = some (.float x) := by
  refine ⟨fun _ _ => Number.exists_read?_iff, fun _ _ => Number.read?_eq_some_float_iff,
    fun _ => Number.read?_eq_none_iff, fun text h => ?_, fun w n => ?_, fun w x h => ?_⟩
  · rw [Option.eq_none_iff_forall_ne_some]
    exact fun r hread => h (Number.numeric_of_read? hread)
  · exact ⟨_, w.print_int n, by rw [String.toList_ofList, Number.read?_intText]⟩
  · exact ⟨_, w.print_float h, by rw [String.toList_ofList, x.read?_text h]⟩

/-- An exponent without a point makes no number, and the least positive float, which is
printed with an exponent, comes back. -/
theorem number_grammar_exponent :
    ¬ Number.Numeric ['2', 'E', '2', '2'] ∧ Number.read? ['2', 'E', '2', '2'] = none ∧
    (⟨1⟩ : Binary64).isFinite = true ∧
    ∃ text, Writer.print {} (.float ⟨1⟩) = .ok text ∧
      Number.read? text.toList = some (.float ⟨1⟩) := by
  have hmark : ¬ Number.Numeric ['2', 'E', '2', '2'] :=
    fun h => absurd (h.point (.inr (by decide))) (by decide)
  have hfinite : (⟨1⟩ : Binary64).isFinite = true := rfl
  exact ⟨hmark, number_grammar.2.2.2.1 _ hmark, hfinite, number_grammar.2.2.2.2.2 {} ⟨1⟩ hfinite⟩

/-- The least integer has no counterpart among the positive ones. -/
example : Number.read? "-9223372036854775808".toList = some (.int Int64.minValue) ∧
    Number.read? "9223372036854775808".toList = none := by
  decide

end SExpr
