import SExpr.Proofs.Text.ClosingQuote
import SExpr.Proofs.Text.StringReading
import SExpr.Proofs.Token.Spelling

/-! # Strings in any spelling

Between quotes most characters may be written in several ways, and in what order they
are mixed makes no difference: each of the spellings of a text is one token with that
text, and what follows is left as it is. More generally any body is read, whether its
escapes are well formed or not, and only a string without a free quote never ends. -/

namespace SExpr

open StringLiteral

variable {rt : Readtable}

theorem next_open {c : Char} {text : List Char} (hrole : rt.role c = .quote)
    (hbody : splitBody? text = none) :
    Scan.next rt (c :: text) = .done (.openString [] (c :: text)) := by
  simp only [Scan.next, splitGap_token hrole Role.noConfusion Role.noConfusion, hrole, hbody]

/-- Every spelling of a text is read as the text, up to the quote behind it and no
further, and the text is written in one of its spellings. -/
theorem next_string_spelled (ht : rt.brackets.Reachable) (hcomment : rt.comment ≠ '"')
    (content : String) :
    (∀ body rest, Spelling content.toList body →
      Scan.next rt ('"' :: (body ++ '"' :: rest)) =
        .more ⟨[], '"' :: (body ++ ['"']), .string content⟩ rest) ∧
    ∃ body, StringLiteral.encode content.toList = '"' :: (body ++ ['"']) ∧
      Spelling content.toList body := by
  have hrole := Readtable.role_quote ht.wellFormed hcomment.symm
  refine ⟨fun body rest h => ?_, _, encode_eq _, spelling_body _⟩
  have hnext := next_string hrole (h.splitBody? rest)
  rwa [h.decode_eq, String.ofList_toList] at hnext

/-- A code point with zeros, an escaped backslash before what looks like a code point,
and a quote as a code point before the quote that ends the string. -/
theorem next_string_spelled_mixed :
    (BracketTable.default.offerAll [⟨'u', '0'⟩]).Reachable ∧ ('#' : Char) ≠ '"' ∧
    Scan.next ⟨BracketTable.default.offerAll [⟨'u', '0'⟩], '#'⟩
        "\"\\u\x7b00E9\x7d\\\\u\x7b41\x7d#\\u\x7b22\x7d\"\"".toList =
      .more ⟨[], "\"\\u\x7b00E9\x7d\\\\u\x7b41\x7d#\\u\x7b22\x7d\"".toList,
        .string "é\\u\x7b41\x7d#\""⟩ ['"'] := by
  have ht : (BracketTable.default.offerAll [⟨'u', '0'⟩]).Reachable := ⟨_, rfl⟩
  have hcomment : ('#' : Char) ≠ '"' := by decide
  have hletter : IsHexadecimal 'é'.toNat "00E9".toList := ⟨2, by decide⟩
  have hquote : IsHexadecimal '"'.toNat "22".toList := ⟨0, by decide⟩
  have hbackslash : ('\\', '\\') ∈ escapes := List.mem_cons_self
  have hrun : ∀ c ∈ "u\x7b41\x7d#".toList, c ≠ '"' ∧ c ≠ '\\' := by simp
  have hspelling : Spelling "é\\u\x7b41\x7d#\"".toList
      "\\u\x7b00E9\x7d\\\\u\x7b41\x7d#\\u\x7b22\x7d".toList :=
    .codePoint hletter (.escape hbackslash (.raw_append hrun (.codePoint hquote .nil)))
  exact ⟨ht, hcomment, (@next_string_spelled ⟨_, '#'⟩ ht hcomment _).1 _ ['"'] hspelling⟩

/-- A string ends at its first free quote, and only without one it never ends. Its body
falls into pieces in one way, nothing being lost or read twice, and the token is what
the pieces stand for. -/
theorem next_quote_reads (hquote : rt.role '"' = .quote) (text : List Char) :
    (∀ l rest, Scan.next rt ('"' :: text) = .more l rest ↔
      ∃ body pieces, FirstFreeQuote text body rest ∧ Reads body pieces ∧
        l = ⟨[], '"' :: (body ++ ['"']), .string (.ofList (pieces.flatMap Piece.text))⟩) ∧
    ((∃ l rest, Scan.next rt ('"' :: text) = .more l rest) ↔
      ∃ body rest, FreeQuote text body rest) ∧
    ((∀ body rest, ¬ FreeQuote text body rest) →
      Scan.next rt ('"' :: text) = .done (.openString [] ('"' :: text))) ∧
    ∀ body pieces, Reads body pieces →
      pieces.flatMap Piece.raw = body ∧ ∀ pieces', Reads body pieces' → pieces' = pieces := by
  have hsome : ∀ l rest, Scan.next rt ('"' :: text) = .more l rest ↔
      ∃ body pieces, FirstFreeQuote text body rest ∧ Reads body pieces ∧
        l = ⟨[], '"' :: (body ++ ['"']), .string (.ofList (pieces.flatMap Piece.text))⟩ := by
    intro l rest
    constructor
    · intro h
      cases hbody : splitBody? text with
      | none =>
        rw [next_open hquote hbody] at h
        contradiction
      | some p =>
        obtain ⟨body, rest'⟩ := p
        rw [next_string hquote hbody] at h
        obtain ⟨rfl, rfl⟩ := Scan.Step.more.inj h
        obtain ⟨pieces, hreads⟩ := (isBody_of_splitBody? hbody).exists_reads
        exact ⟨body, pieces, splitBody?_eq_some_iff.mp hbody, hreads, by rw [hreads.decode_eq]⟩
    · intro h
      obtain ⟨body, pieces, hfirst, hreads, rfl⟩ := h
      rw [next_string hquote (splitBody?_eq_some_iff.mpr hfirst), hreads.decode_eq]
  have hnone : (∀ body rest, ¬ FreeQuote text body rest) →
      Scan.next rt ('"' :: text) = .done (.openString [] ('"' :: text)) :=
    fun h => next_open hquote (splitBody?_eq_none_iff.mpr h)
  refine ⟨hsome, ⟨fun h => ?_, fun h => ?_⟩, hnone, fun body pieces h => ?_⟩
  · obtain ⟨l, rest, hnext⟩ := h
    obtain ⟨body, -, hfirst, -, -⟩ := (hsome l rest).mp hnext
    exact ⟨body, rest, hfirst.1⟩
  · obtain ⟨body, rest, hfree⟩ := h
    obtain ⟨body', rest', hbody, -⟩ := hfree.exists_splitBody?
    exact ⟨_, rest', next_string hquote hbody⟩
  · exact ⟨h.flatMap_raw, fun pieces' h' => h.unique h'⟩

/-- A surrogate, an unknown letter, a code point without an end, an escaped quote and,
right before the quote that ends the string, an escaped backslash. -/
theorem next_quote_reads_malformed :
    (⟨.default, ';'⟩ : Readtable).role '"' = .quote ∧
    Scan.next ⟨.default, ';'⟩ "\"\\u\x7bD800\x7d\\q\\u\x7b\\\"\\\\\"\"".toList =
      .more ⟨[], "\"\\u\x7bD800\x7d\\q\\u\x7b\\\"\\\\\"".toList,
        .string "\\u\x7bD800\x7d\\q\\u\x7b\"\\"⟩ ['"'] := by
  have hrole : (⟨.default, ';'⟩ : Readtable).role '"' = .quote := rfl
  have hfirst : FirstFreeQuote "\\u\x7bD800\x7d\\q\\u\x7b\\\"\\\\\"\"".toList
      "\\u\x7bD800\x7d\\q\\u\x7b\\\"\\\\".toList ['"'] :=
    splitBody?_eq_some_iff.mp (by decide)
  have hsurrogate : IsHexadecimal 0xD800 "D800".toList := ⟨0, by decide⟩
  have hreads : Reads "\\u\x7bD800\x7d\\q\\u\x7b\\\"\\\\".toList
      [.codePoint 0xD800 "D800".toList, .unknown 'q', .unknown 'u', .plain '\x7b',
        .escape '"' '"', .escape '\\' '\\'] :=
    .codePoint hsurrogate <|
      .unknown (hexEscape?_eq_none_iff.mp (by decide)) (charOf?_eq_none_iff.mp (by decide)) <|
      .unknown (hexEscape?_eq_none_iff.mp (by decide)) (charOf?_eq_none_iff.mp (by decide)) <|
      .plain (by decide) (by decide) <| .escape (by decide) <| .escape (by decide) .nil
  exact ⟨hrole, ((next_quote_reads hrole _).1 _ _).mpr ⟨_, _, hfirst, hreads, rfl⟩⟩

end SExpr
