import SExpr.Proofs.Print.Tokens

/-! # Printing and reading back

What is printed is read as the `norm` of the value exactly if no bracket is among
the characters that a writer puts down as they are: those of numbers, of `nil` and
of true. Symbols are escaped against the brackets and strings are quoted, so they
may hold any character, but nothing keeps a digit from being taken for a bracket. -/

namespace SExpr

theorem Tokenizes.of_cuts {rt : Readtable} {source : String} {ts : List Token}
    (h : Cuts rt source.toList ts) : Tokenizes rt source ts := by
  obtain ⟨hts, gap, hgap⟩ := h
  unfold Tokenizes tokenize Scan.located
  simp only [hgap]
  exact ⟨(Scan.map_token_place _ _).trans hts, trivial⟩

theorem Tokenizes.cuts {rt : Readtable} {source : String} {ts : List Token}
    (h : Tokenizes rt source ts) : Cuts rt source.toList ts := by
  obtain ⟨hts, hopen⟩ := h
  unfold tokenize Scan.located at hts hopen
  cases hending : (scan rt source.toList).ending with
  | finished gap =>
    simp only [hending] at hts
    exact ⟨(Scan.map_token_place _ _).symm.trans hts, gap, hending⟩
  | openString gap raw =>
    simp only [hending] at hopen
    contradiction

/-- The brackets among the tokens of a text are those of the values that are read,
but for the atoms that are read as lists. -/
theorem ParseOptions.bracketCount_of_parse (p : ParseOptions) {brackets : BracketTable}
    {text : String} {ts : List Token} {values : List Value}
    (hts : Tokenizes (p.readtable brackets) text ts) (h : parse brackets p text = .ok values) :
    ∃ named, bracketCount ts + 2 * named = 2 * Value.sequencesAll values ∧
      (p.Unnamed → named = 0) := by
  obtain ⟨ts', ds, hts', hds, rfl⟩ := parse_sound h
  obtain rfl := hts.1.symm.trans hts'.1
  exact p.bracketCount_derivesAll hds

/-- Without names the brackets are exactly those of the values. -/
theorem ParseOptions.Unnamed.bracketCount_of_parse {p : ParseOptions} (hp : p.Unnamed)
    {brackets : BracketTable} {text : String} {ts : List Token} {values : List Value}
    (hts : Tokenizes (p.readtable brackets) text ts) (h : parse brackets p text = .ok values) :
    bracketCount ts = 2 * Value.sequencesAll values := by
  obtain ⟨named, hcount, hnone⟩ := p.bracketCount_of_parse hts h
  rwa [hnone hp, Nat.mul_zero, Nat.add_zero] at hcount

namespace Writer

variable {w : Writer} {p : ParseOptions} {v : Value} {text : String}

theorem written_render [Display] (w : Writer) (l : Layout) : l.Written (w.render l).toList := by
  unfold render
  split
  · exact l.written_pretty _
  · exact l.written_simple

theorem print_eq_ok [Display] (h : w.print v = .ok text) :
    ∃ l, v.layout w = .ok l ∧ l.Written text.toList := by
  obtain ⟨l, hl, rfl⟩ := print_eq_ok_iff.mp h
  exact ⟨l, hl, w.written_render l⟩

/-- The writer and the reader take the same characters for the same thing. -/
theorem Matches.readtable_eq (hm : w.Matches p) :
    p.readtable w.brackets = w.options.readtable w.brackets := by
  rw [ParseOptions.readtable, PrintOptions.readtable, hm.comment]

/-- Whatever the comment character is, as long as it is not needed otherwise, a
value is read back exactly if it is legible. -/
theorem parse_eq_norm_iff [Display] (hm : w.Matches p)
    (hrt : (w.options.readtable w.brackets).WellFormed) (hprint : w.print v = .ok text)
    (hcomment : ∀ c ∈ v.bare, c ≠ w.options.comment)
    (hdepth : (v.norm w.options).nesting ≤ p.maxDepth) :
    parse w.brackets p text = .ok [v.norm w.options] ↔ v.Legible w.brackets := by
  obtain ⟨l, hl, hwritten⟩ := print_eq_ok hprint
  obtain ⟨ts, hts⟩ := exists_readsAs_norm hm hrt v hl hcomment
  have htokens : Tokenizes (p.readtable w.brackets) text ts := by
    rw [hm.readtable_eq]
    exact .of_cuts (hts.lexes.spells hrt hwritten).cuts
  constructor
  · intro h
    obtain ⟨named, hread, -⟩ := p.bracketCount_of_parse htokens h
    have hprinted := hts.count
    rw [Value.sequencesAll, Value.sequencesAll, Nat.add_zero] at hread
    -- a bracket that is no opener or closer of the value would be one too many
    exact BracketTable.spares_iff.mpr (by omega)
  · intro h
    obtain ⟨d, hd, hvalue⟩ := hts.derives h p.maxDepth 0 (by omega)
    have hall := DerivesAll.cons hd .nil
    rw [List.append_nil] at hall
    rw [parse_complete htokens hall, Derivation.values, Derivation.values, hvalue]

end Writer

/-- No number and no name holds a semicolon. -/
theorem Value.ne_semicolon (v : Value) : ∀ c ∈ v.bare, c ≠ ';' :=
  fun c hc => Readtable.ne_semicolon_of_not_isReserved (v.isReserved_bare c hc)

/-- Printing and reading back, for any brackets, any value and any way of writing
it: the value comes back as its `norm` if and only if it is legible. A value with a
spelling of its own is its own `norm`. -/
theorem parse_print_iff [Display] {w : Writer} {p : ParseOptions} (ht : w.brackets.Reachable)
    (hm : w.Matches p) (hcomment : w.options.comment = ';') {v : Value} {text : String}
    (hprint : w.print v = .ok text) (hdepth : (v.norm w.options).nesting ≤ p.maxDepth) :
    (parse w.brackets p text = .ok [v.norm w.options] ↔ v.Legible w.brackets) ∧
      (w.options.textStyle = .string → v.Readable w.brackets → v.norm w.options = v) := by
  have hrt : (w.options.readtable w.brackets).WellFormed := by
    rw [PrintOptions.readtable, hcomment]
    exact ht.wellFormed.readtable
  have hiff := Writer.parse_eq_norm_iff hm hrt hprint (hcomment ▸ v.ne_semicolon) hdepth
  exact ⟨hiff, fun hstyle hreadable => hreadable.norm_eq hstyle⟩

/-- Registered brackets around symbols and strings that contain them. -/
theorem parse_print_angles :
    Writer.print ⟨BracketTable.default.offerAll [⟨'<', '>'⟩], {}⟩
        (.sequence ⟨'<', '>'⟩ [.symbol "a>", .int (-1), .quoted (.text "<")]) =
      .ok "<a\\> -1 '\"<\">" ∧
    parse (BracketTable.default.offerAll [⟨'<', '>'⟩]) {} "<a\\> -1 '\"<\">" =
      .ok [.sequence ⟨'<', '>'⟩ [.symbol "a>", .int (-1), .quoted (.text "<")]] := by
  have hprint : Writer.print ⟨BracketTable.default.offerAll [⟨'<', '>'⟩], {}⟩
      (.sequence ⟨'<', '>'⟩ [.symbol "a>", .int (-1), .quoted (.text "<")]) =
      .ok "<a\\> -1 '\"<\">" := rfl
  have hm : Writer.Matches ⟨BracketTable.default.offerAll [⟨'<', '>'⟩], {}⟩ {} :=
    ⟨rfl, rfl, rfl, rfl, rfl, rfl, rfl⟩
  have hread := parse_print_iff ⟨[⟨'<', '>'⟩], rfl⟩ hm rfl hprint (by decide)
  exact ⟨hprint, hread.1.mpr (by decide)⟩

/-- Where a digit is an opener, the text of a number is taken for a sequence. -/
theorem parse_print_ne_of_digit_bracket :
    (BracketTable.default.offerAll [⟨'1', '2'⟩]).Reachable ∧
    Writer.print ⟨BracketTable.default.offerAll [⟨'1', '2'⟩], {}⟩ (.int 1) = .ok "1" ∧
    parse (BracketTable.default.offerAll [⟨'1', '2'⟩]) {} "1" ≠ .ok [.int 1] := by
  have ht : (BracketTable.default.offerAll [⟨'1', '2'⟩]).Reachable := ⟨_, rfl⟩
  have hprint : Writer.print ⟨BracketTable.default.offerAll [⟨'1', '2'⟩], {}⟩ (.int 1) = .ok "1" :=
    rfl
  have hillegible : ¬ (Value.int 1).Legible (BracketTable.default.offerAll [⟨'1', '2'⟩]) := by
    decide
  have hm : Writer.Matches ⟨BracketTable.default.offerAll [⟨'1', '2'⟩], {}⟩ {} :=
    ⟨rfl, rfl, rfl, rfl, rfl, rfl, rfl⟩
  have hread := Writer.parse_eq_norm_iff hm ht.wellFormed.readtable hprint
    (Value.int 1).ne_semicolon (by decide)
  exact ⟨ht, hprint, fun h => hillegible (hread.mp h)⟩

end SExpr
