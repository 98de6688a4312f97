import SExpr.Proofs.RoundTrip

/-! # Other comment characters

A writer and a reader may agree on another comment character, and symbols are then
escaped against that one as well. Brackets, quotes, apostrophes, backslashes and
numbers are not: a comment character that is one of theirs swallows them, and some
value is lost for each such character. -/

namespace SExpr

/-- A value that is printed for readers with the comment character `c` is read back
by such a reader. -/
def ReadsBack [Display] (t : BracketTable) (c : Char) (pretty : Bool) (width : Nat)
    (v : Value) : Prop :=
  ∃ text, Writer.print ⟨t, { pretty := pretty, width := width, comment := c }⟩ v = .ok text ∧
    parse t { comment := c } text = .ok [v]

/-! ## Texts that are not read back -/

section
variable {brackets : BracketTable} {p : ParseOptions} {text : String} {v : Value} {c : Char}
  {rest : List Char}

/-- Nothing is read from a comment. -/
theorem parse_ne_of_comment_first (hrole : (p.readtable brackets).role c = .comment)
    (htext : text.toList = c :: rest) (hline : '\n' ∉ rest) :
    parse brackets p text ≠ .ok [v] := by
  have htokens : Tokenizes (p.readtable brackets) text [] :=
    .of_cuts (htext ▸ cuts_comment hrole hline)
  rw [parse_complete htokens .nil]
  intro h
  cases h

/-- A sequence is not over where its closer starts a comment. -/
theorem parse_ne_of_comment_closer (hp : p.Unnamed) {kind : Bracket}
    (hopener : (p.readtable brackets).role kind.opener = .opening kind)
    (hcloser : (p.readtable brackets).role kind.closer = .comment)
    (htext : text.toList = [kind.opener, kind.closer]) : parse brackets p text ≠ .ok [v] := by
  have hcuts := (cuts_comment hcloser (List.not_mem_nil)).opening hopener
  have htokens : Tokenizes (p.readtable brackets) text [.opening kind] := .of_cuts (htext ▸ hcuts)
  intro h
  -- one bracket is not an even number of them
  have hcount := hp.bracketCount_of_parse htokens h
  have hone : bracketCount [.opening kind] = 1 := rfl
  omega

/-- What comes before a comment may be a word, and then no more than that is read. -/
theorem parse_ne_of_comment_inside (hp : p.Unnamed) {word : List Char}
    (hword : ∀ d ∈ word, IsWordChar (p.readtable brackets) d) (hne : word ≠ [])
    (hrole : (p.readtable brackets).role c = .comment) (hescape : c ≠ '\\')
    (htext : text.toList = word ++ c :: rest) (hline : '\n' ∉ rest)
    (hsequences : v.sequences = 0) (hv : Reader.atom p (.ofList word) false ≠ v) :
    parse brackets p text ≠ .ok [v] := by
  obtain ⟨ts, hspells, hcount, hatom⟩ := exists_spells_bare hword hne
  have hstop : Atom.Stops (p.readtable brackets) (c :: rest) :=
    ⟨Readtable.endsAtom_of_role hrole Role.noConfusion, hescape⟩
  have hcuts := hspells _ _ hstop (cuts_comment hrole hline)
  rw [List.append_nil] at hcuts
  have htokens : Tokenizes (p.readtable brackets) text ts := .of_cuts (htext ▸ hcuts)
  intro h
  have hread := hp.bracketCount_of_parse htokens h
  rw [Value.sequencesAll, Value.sequencesAll, hsequences] at hread
  have hnone : word.countP brackets.isDelimiter = 0 := hcount.symm.trans hread
  have hfree : ∀ d ∈ word, brackets.isDelimiter d = false := by
    simpa using List.countP_eq_zero.mp hnone
  obtain rfl := hatom hfree
  rw [parse_complete htokens (.cons .atom .nil), Derivation.values, Derivation.values] at h
  exact hv (List.cons.inj (Except.ok.inj h)).1

end

/-! ## A value for every character of a number -/

theorem exists_intText_eq {d : Char} (h : d.isDigit = true) :
    ∃ n : Int64, Number.intText n = [d] := by
  have hbounds : 48 ≤ d.toNat ∧ d.toNat ≤ 57 := by
    simpa [Char.isDigit, UInt32.le_iff_toNat_le] using h
  obtain ⟨k, hk⟩ : ∃ k, d.toNat = 48 + k := ⟨d.toNat - 48, by omega⟩
  have hlt : k < 10 := by omega
  have hchar : Nat.digitChar k = d := by
    rw [← Char.toNat_inj, Nat.toNat_digitChar_of_lt_ten hlt, hk]
  have hvalue : (Int64.ofInt k).toInt = k :=
    Int64.toInt_ofInt_of_le (by omega) (by omega)
  refine ⟨Int64.ofInt k, ?_⟩
  rw [Number.intText, hvalue, Digits.integerText, if_neg (by omega), Int.natAbs_natCast,
    Nat.toDigits_of_lt_base hlt, hchar]

/-- The numbers 1 and `10 ^ 22`. -/
def one : Binary64 := ⟨0x3FF0000000000000⟩

def large : Binary64 := ⟨0x4480F0CF064DD592⟩

theorem text_one : one.text = ['1', '.', '0'] := by decide +kernel

theorem text_large : large.text = ['1', '.', '0', 'e', '2', '2'] := by decide +kernel

/-- A number whose text shows the character `d` for the first time after `front`,
which is nothing at all or not that number. -/
structure Shows (p : ParseOptions) (d : Char) (v : Value) (front back : List Char) : Prop where
  layout : ∀ w, v.layout w = .ok (.atom (.ofList (front ++ d :: back)))
  bare : v.bare = front ++ d :: back
  readable : ∀ t, v.Readable t
  nesting : v.nesting = 0
  sequences : v.sequences = 0
  line : '\n' ∉ back
  front_ne : d ∉ front
  other : front ≠ [] → Reader.atom p (.ofList front) false ≠ v

theorem shows_int (p : ParseOptions) {n : Int64} {d : Char} {back : List Char}
    (h : Number.intText n = d :: back) (hline : '\n' ∉ back) : Shows p d (.int n) [] back := by
  refine ⟨fun w => ?_, by rw [Value.bare, h]; rfl, fun t => .int, rfl, rfl, hline,
    List.not_mem_nil, fun hne => absurd rfl hne⟩
  rw [Value.layout, Writer.int, h]
  rfl

theorem shows_float {p : ParseOptions} {x : Binary64} (hfinite : x.isFinite = true) {d : Char}
    {front back : List Char} (h : x.text = front ++ d :: back) (hline : '\n' ∉ back)
    (hfront : d ∉ front) (hother : Reader.atom p (.ofList front) false ≠ .float x) :
    Shows p d (.float x) front back := by
  refine ⟨fun w => ?_, by rw [Value.bare, h], fun t => .float hfinite, rfl, rfl, hline, hfront,
    fun _ => hother⟩
  rw [Value.layout, ← h]
  exact Writer.float_eq_ok_iff.mpr ⟨hfinite, rfl⟩

/-- Each character of a number is shown by some number. -/
theorem exists_shows {p : ParseOptions} (hp : p.Unnamed) {d : Char} (h : Number.IsNumeral d) :
    ∃ v front back, Shows p d v front back := by
  rcases h with hdigit | rfl | rfl | rfl
  · obtain ⟨n, hn⟩ := exists_intText_eq hdigit
    exact ⟨.int n, [], [], shows_int p hn List.not_mem_nil⟩
  · exact ⟨.int (-1), [], ['1'], shows_int p rfl (by decide)⟩
  · refine ⟨.float one, ['1'], ['0'], shows_float rfl text_one (by decide) (by decide) ?_⟩
    have hread : Number.read? ['1'] = some (.int 1) := rfl
    rw [hp.atom_eq, String.toList_ofList, hread]
    exact Value.noConfusion
  · refine ⟨.float large, ['1', '.', '0'], ['2', '2'],
      shows_float rfl text_large (by decide) (by decide) ?_⟩
    have hread : Number.read? ['1', '.', '0'] = some (.float one) := text_one ▸ one.read?_text rfl
    rw [hp.atom_eq, String.toList_ofList, hread]
    intro he
    exact absurd (Value.float.inj he) (by decide)

/-! ## The characters that are in the way -/

section
variable {t : BracketTable} {c : Char} {pretty : Bool} {width : Nat} {v : Value}

/-- The text of a value that is read back, and the layout that it is written from. -/
theorem ReadsBack.exists_written [Display] (h : ReadsBack t c pretty width v) {l : Layout}
    (hl : v.layout ⟨t, { pretty := pretty, width := width, comment := c }⟩ = .ok l) :
    ∃ text, l.Written text.toList ∧ parse t { comment := c } text = .ok [v] := by
  obtain ⟨text, hprint, hparse⟩ := h
  obtain ⟨l', hl', hwritten⟩ := Writer.print_eq_ok hprint
  rw [hl] at hl'
  cases hl'
  exact ⟨text, hwritten, hparse⟩

theorem not_readsBack_of_atom [Display] (hrole : (⟨t, c⟩ : Readtable).role c = .comment)
    {rest : List Char} (hl : v.layout ⟨t, { pretty := pretty, width := width, comment := c }⟩ =
      .ok (.atom (.ofList (c :: rest)))) (hline : '\n' ∉ rest) :
    ¬ ReadsBack t c pretty width v := by
  intro h
  obtain ⟨text, hwritten, hparse⟩ := h.exists_written hl
  generalize htext : text.toList = chars at hwritten
  cases hwritten
  rw [String.toList_ofList] at htext
  exact parse_ne_of_comment_first (p := { comment := c }) hrole htext hline hparse

theorem not_readsBack_of_quoted [Display] (hrole : (⟨t, '\''⟩ : Readtable).role '\'' = .comment) :
    ¬ ReadsBack t '\'' pretty width (.quoted (.text "")) := by
  intro h
  obtain ⟨text, hwritten, hparse⟩ := h.exists_written rfl
  generalize htext : text.toList = chars at hwritten
  cases hwritten with
  | quoted hinner =>
    cases hinner
    exact parse_ne_of_comment_first (p := { comment := '\'' }) hrole htext (by decide) hparse

theorem not_readsBack_of_delimiter [Display] (ht : t.WellFormed) {kind : Bracket}
    (hkind : kind ∈ t.kinds) (hc : c ∈ kind.chars) :
    ¬ ReadsBack t c pretty width (.sequence kind []) := by
  have hblank := Readtable.not_isBlank_of_not_isReserved (ht.not_reserved kind hkind c hc)
  have hrole : (⟨t, c⟩ : Readtable).role c = .comment := Readtable.role_comment hblank
  intro h
  have hl : (Value.sequence kind []).layout
      ⟨t, { pretty := pretty, width := width, comment := c }⟩ = .ok (.sequence kind []) :=
    Value.layout_sequence_eq_ok_iff.mpr ⟨ht.contains_iff.mpr hkind, [], rfl, rfl⟩
  obtain ⟨text, hwritten, hparse⟩ := h.exists_written hl
  generalize htext : text.toList = chars at hwritten
  cases hwritten with
  | sequence hitems =>
    cases hitems
    rcases Bracket.mem_chars.mp hc with rfl | rfl
    · refine parse_ne_of_comment_first (p := { comment := kind.opener }) hrole htext ?_ hparse
      -- the closer is no blank, so it does not end the line
      intro hmem
      have hfree := ht.not_reserved kind hkind kind.closer (by simp)
      rw [← List.mem_singleton.mp hmem] at hfree
      contradiction
    · have hopener : (⟨t, kind.closer⟩ : Readtable).role kind.opener = .opening kind :=
        Readtable.role_opener ht hkind (ht.opener_ne_closer hkind hkind)
      exact parse_ne_of_comment_closer (p := { comment := kind.closer }) ⟨rfl, rfl, rfl⟩ hopener
        hrole htext hparse

theorem not_readsBack_of_shows [Display] {front back : List Char} (hc : Number.IsNumeral c)
    (h : Shows { comment := c } c v front back) : ¬ ReadsBack t c pretty width v := by
  have hreserved := Value.isReserved_of_isNumeral hc
  have hrole : (⟨t, c⟩ : Readtable).role c = .comment :=
    Readtable.role_comment (Readtable.not_isBlank_of_not_isReserved hreserved)
  by_cases hfront : front = []
  · subst hfront
    exact not_readsBack_of_atom hrole (h.layout _) h.line
  · have hword : ∀ d ∈ front, IsWordChar ⟨t, c⟩ d := by
      intro d hd
      have hbare : d ∈ v.bare := by rw [h.bare]; exact List.mem_append_left _ hd
      refine ⟨v.isReserved_bare d hbare, ?_⟩
      intro he
      subst he
      exact h.front_ne hd
    have hescape : c ≠ '\\' := by
      intro he
      rw [he] at hreserved
      contradiction
    intro hreads
    obtain ⟨text, hwritten, hparse⟩ := hreads.exists_written (h.layout _)
    generalize htext : text.toList = chars at hwritten
    cases hwritten
    rw [String.toList_ofList] at htext
    exact parse_ne_of_comment_inside (p := { comment := c }) ⟨rfl, rfl, rfl⟩ hword hfront hrole
      hescape htext h.line h.sequences (h.other hfront) hparse

/-- Some readable value is not read back. -/
def Loses [Display] (t : BracketTable) (c : Char) (pretty : Bool) (width : Nat) : Prop :=
  ∃ v : Value, v.Readable t ∧ v.nesting ≤ 1024 ∧ ¬ ReadsBack t c pretty width v

theorem loses_of_isDelimiter [Display] (ht : t.WellFormed) (hc : t.isDelimiter c = true) :
    Loses t c pretty width := by
  obtain ⟨kind, hkind, hchars⟩ := BracketTable.isDelimiter_iff.mp hc
  refine ⟨.sequence kind [], .sequence hkind (by simp), ?_,
    not_readsBack_of_delimiter ht hkind hchars⟩
  simp [Value.nesting, Value.nestingAll]

theorem loses_of_special [Display] (hc : c ∈ ['"', '\'', '\\']) : Loses t c pretty width := by
  simp only [List.mem_cons, List.not_mem_nil, or_false] at hc
  rcases hc with rfl | rfl | rfl
  · exact ⟨.text "", .text, Nat.zero_le _,
      not_readsBack_of_atom (Readtable.role_comment rfl) rfl (by decide)⟩
  · exact ⟨.quoted (.text ""), .quoted .text, by decide,
      not_readsBack_of_quoted (Readtable.role_comment rfl)⟩
  · -- the space of the symbol is escaped, so its text begins with a comment
    have hl : (Value.symbol " ").layout
        ⟨t, { pretty := pretty, width := width, comment := '\\' }⟩ =
        .ok (.atom (.ofList ['\\', ' '])) := rfl
    exact ⟨.symbol " ", .symbol (by decide), Nat.zero_le _,
      not_readsBack_of_atom (Readtable.role_comment rfl) hl (by decide)⟩

theorem loses_of_isNumeral [Display] (hc : Number.IsNumeral c) : Loses t c pretty width := by
  obtain ⟨v, front, back, hv⟩ := exists_shows (p := { comment := c }) ⟨rfl, rfl, rfl⟩ hc
  exact ⟨v, hv.readable t, by rw [hv.nesting]; exact Nat.zero_le _, not_readsBack_of_shows hc hv⟩

/-! ## Which comment characters do -/

/-- A comment character that nothing which is printed needs otherwise. -/
theorem readtable_wellFormed (ht : t.WellFormed) (hfree : t.isDelimiter c = false)
    (hc : c ∉ ['"', '\'', '\\']) : (⟨t, c⟩ : Readtable).WellFormed := by
  refine ⟨ht, hfree, ?_, ?_, ?_⟩ <;>
  · intro he
    subst he
    exact hc (by decide)

/-- Readable values are printed, and are read back if they are legible. -/
theorem readsBack_iff_legible [Display] (hrt : (⟨t, c⟩ : Readtable).WellFormed)
    (hc : ¬ Number.IsNumeral c) (hv : v.Readable t) (hdepth : v.nesting ≤ 1024) :
    ReadsBack t c pretty width v ↔ v.Legible t := by
  have hnorm : v.norm { pretty := pretty, width := width, comment := c } = v := hv.norm_eq rfl
  have hbare : ∀ d ∈ v.bare, d ≠ c := by
    intro d hd he
    rw [← he] at hc
    exact hc (hv.isNumeral_bare d hd)
  have hm : Writer.Matches ⟨t, { pretty := pretty, width := width, comment := c }⟩
      { comment := c } := ⟨rfl, rfl, rfl, rfl, rfl, rfl, rfl⟩
  obtain ⟨l, hl⟩ := hv.exists_layout (w := ⟨t, { pretty := pretty, width := width, comment := c }⟩)
    hrt.brackets rfl
  have hread : ∀ text,
      Writer.print ⟨t, { pretty := pretty, width := width, comment := c }⟩ v = .ok text →
        (parse t { comment := c } text = .ok [v] ↔ v.Legible t) := by
    intro text hprint
    have hiff := Writer.parse_eq_norm_iff hm hrt hprint hbare (by rwa [hnorm])
    rwa [hnorm] at hiff
  constructor
  · intro h
    obtain ⟨text, hprint, hparse⟩ := h
    exact (hread text hprint).mp hparse
  · intro hlegible
    have hprint : Writer.print ⟨t, { pretty := pretty, width := width, comment := c }⟩ v =
        .ok (Writer.render ⟨t, { pretty := pretty, width := width, comment := c }⟩ l) := by
      rw [Writer.print, hl]
      rfl
    exact ⟨_, hprint, (hread _ hprint).mpr hlegible⟩

end

/-- The comment characters with which all readable values are read back: no bracket,
no quote, apostrophe or backslash, and no character of a number. This takes brackets
that are no characters of numbers either. -/
theorem forall_readsBack_iff [Display] {t : BracketTable} (ht : t.Reachable) (c : Char)
    (pretty : Bool) (width : Nat) :
    (∀ v : Value, v.Readable t → v.nesting ≤ 1024 → ReadsBack t c pretty width v) ↔
      (t.isDelimiter c = false ∧ c ∉ ['"', '\'', '\\'] ∧ ¬ Number.IsNumeral c) ∧
        ∀ d, Number.IsNumeral d → t.isDelimiter d = false := by
  have hbrackets := ht.wellFormed
  constructor
  · intro hall
    have hkept : ¬ Loses t c pretty width := by
      intro hloses
      obtain ⟨v, hv, hdepth, hlost⟩ := hloses
      exact hlost (hall v hv hdepth)
    have hfree : t.isDelimiter c = false := by
      rw [Bool.eq_false_iff]
      exact fun hc => hkept (loses_of_isDelimiter hbrackets hc)
    have hspecial : c ∉ ['"', '\'', '\\'] := fun hc => hkept (loses_of_special hc)
    have hnumeral : ¬ Number.IsNumeral c := fun hc => hkept (loses_of_isNumeral hc)
    refine ⟨⟨hfree, hspecial, hnumeral⟩, ?_⟩
    -- a number shows each character that a bracket must not be
    intro d hd
    obtain ⟨v, front, back, hv⟩ := exists_shows (p := { comment := c }) ⟨rfl, rfl, rfl⟩ hd
    have hdepth : v.nesting ≤ 1024 := by rw [hv.nesting]; exact Nat.zero_le _
    have hrt := readtable_wellFormed hbrackets hfree hspecial
    have hlegible := (readsBack_iff_legible hrt hnumeral (hv.readable t) hdepth).mp
      (hall v (hv.readable t) hdepth)
    exact hlegible d (by rw [hv.bare]; simp)
  · intro h v hv hdepth
    obtain ⟨⟨hfree, hspecial, hnumeral⟩, hnumbers⟩ := h
    have hrt := readtable_wellFormed hbrackets hfree hspecial
    exact (readsBack_iff_legible hrt hnumeral hv hdepth).mpr
      fun d hd => hnumbers d (hv.isNumeral_bare d hd)

/-- The default brackets are no characters of numbers. -/
theorem isDelimiter_default_of_isNumeral {d : Char} (h : Number.IsNumeral d) :
    BracketTable.default.isDelimiter d = false := by
  rw [Bool.eq_false_iff]
  intro hd
  obtain ⟨kind, hkind, hmem⟩ := BracketTable.isDelimiter_iff.mp hd
  simp only [BracketTable.default, List.mem_cons, List.not_mem_nil, or_false] at hkind
  rcases hkind with rfl | rfl <;>
  · rcases Bracket.mem_chars.mp hmem with rfl | rfl <;>
      exact absurd h (by decide)

/-- A plus sign may start comments: no number is printed with one. -/
theorem forall_readsBack_plus :
    BracketTable.default.Reachable ∧
      ∀ v : Value, v.Readable .default → v.nesting ≤ 1024 → ReadsBack .default '+' true 20 v := by
  have ht : BracketTable.default.Reachable := ⟨[], rfl⟩
  exact ⟨ht, (forall_readsBack_iff ht '+' true 20).mpr
    ⟨⟨by decide, by decide, by decide⟩, fun _ hd => isDelimiter_default_of_isNumeral hd⟩⟩

/-- The usual comment character is not enough where a digit is a bracket. -/
theorem not_readsBack_of_digit_bracket :
    (BracketTable.default.offerAll [⟨'1', '2'⟩]).Reachable ∧
      ((BracketTable.default.offerAll [⟨'1', '2'⟩]).isDelimiter ';' = false ∧
        ';' ∉ ['"', '\'', '\\'] ∧ ¬ Number.IsNumeral ';') ∧
      (Value.int 1).Readable (BracketTable.default.offerAll [⟨'1', '2'⟩]) ∧
      ¬ ReadsBack (BracketTable.default.offerAll [⟨'1', '2'⟩]) ';' false 80 (.int 1) := by
  have ht : (BracketTable.default.offerAll [⟨'1', '2'⟩]).Reachable := ⟨_, rfl⟩
  have hnumeral : ¬ Number.IsNumeral ';' := by decide
  refine ⟨ht, ⟨by decide, by decide, hnumeral⟩, .int, fun h => ?_⟩
  have hlegible := (readsBack_iff_legible ht.wellFormed.readtable hnumeral .int (by decide)).mp h
  exact absurd (hlegible '1' (by decide)) (by decide)

end SExpr
