import SExpr.Proofs.Concat

/-! # Tokens as slices of the source

The span of a token names the characters that the token is written as: what comes before
them is measured by its first mark, and they by the distance to the last. A string that
never ends is all of the text from its quote on. -/

namespace SExpr

variable {rt : Readtable}

/-- The places of all tokens, and of the string that never ends behind them. -/
def TokenStream.spans (s : TokenStream) : List Span :=
  s.tokens.map Located.span ++ s.openString.toList

/-- The span of `slice` in a text that begins at `m`. -/
structure Span.Marks (s : Span) (m : Mark) (text before slice after : List Char) : Prop where
  text_eq : text = before ++ slice ++ after
  span_eq : s = ⟨m.advance before, (m.advance before).advance slice⟩

/-- The span is the same in a text that begins earlier. -/
theorem Span.Marks.behind {s : Span} {m : Mark} {front text before slice after : List Char}
    (h : s.Marks (m.advance front) text before slice after) :
    s.Marks m (front ++ text) (front ++ before) slice after := by
  obtain ⟨rfl, rfl⟩ := h
  refine ⟨by simp only [List.append_assoc], ?_⟩
  rw [Mark.advance_append]

/-- Behind a lexeme the text begins where the lexeme ends. -/
theorem Lexeme.last_located (m : Mark) (l : Lexeme) :
    (l.located m).span.last = m.advance (l.gap ++ l.raw) := (Mark.advance_append _ _ _).symm

/-- Each token was cut off the text as a lexeme, and its span is that of what the lexeme is
written as. -/
theorem exists_lexeme_of_mem {text : List Char} {m : Mark} {t : Located}
    (h : t ∈ ((scan rt text).locatedFrom m).tokens) :
    ∃ l before after, (∃ tail, Scan.next rt tail = .more l after) ∧ t.token = l.token ∧
      t.span.Marks m text before l.raw after := by
  induction text using scan.induct rt generalizing m with
  | case1 text ending hnext =>
    rw [scan_of_done hnext] at h
    cases ending <;> contradiction
  | case2 text l rest hnext _ ih =>
    obtain rfl := Scan.next_eq_append hnext
    rw [locatedFrom_of_more hnext] at h
    obtain rfl | h : t = l.located m ∨ t ∈ ((scan rt rest).locatedFrom _).tokens :=
      List.mem_cons.mp h
    · exact ⟨l, l.gap, rest, ⟨_, hnext⟩, rfl, rfl, rfl⟩
    · rw [l.last_located] at h
      obtain ⟨l', before, after, htail, htoken, hmarks⟩ := ih h
      exact ⟨l', _, after, htail, htoken, hmarks.behind⟩

/-- A string that never ends goes from a quote to the end of the text. -/
theorem exists_of_openString {text : List Char} {m : Mark} {span : Span}
    (h : ((scan rt text).locatedFrom m).openString = some span) :
    ∃ before body, span.Marks m text before ('"' :: body) [] := by
  induction text using scan.induct rt generalizing m with
  | case1 text ending hnext =>
    rw [scan_of_done hnext] at h
    cases ending with
    | finished gap => contradiction
    | openString gap raw =>
      obtain ⟨-, rfl, body, rfl⟩ := isGap_of_openString hnext
      exact ⟨gap, body, (List.append_nil _).symm, (Option.some.inj h).symm⟩
  | case2 text l rest hnext _ ih =>
    obtain rfl := Scan.next_eq_append hnext
    rw [locatedFrom_of_more hnext, l.last_located] at h
    obtain ⟨before, body, hmarks⟩ := ih h
    exact ⟨_, body, hmarks.behind⟩

/-! ## Texts -/

/-- Where a text ends that begins the source. -/
def Mark.behind (text : String) : Mark := ⟨text.length, text.utf8ByteSize⟩

theorem Mark.advance_start (text : List Char) : start.advance text = behind (.ofList text) := by
  rw [advance, behind, start, byteLength_eq, Nat.zero_add, Nat.zero_add, String.length_ofList]

/-- The span of the slice, which comes behind `before` in the source and is followed by
`after`. -/
structure Span.Names (s : Span) (source before slice after : String) : Prop where
  source_eq : source = before ++ slice ++ after
  first_eq : s.first = .behind before
  last_eq : s.last = .behind (before ++ slice)

theorem Span.Marks.names {s : Span} {source : String} {before slice after : List Char}
    (h : s.Marks .start source.toList before slice after) :
    s.Names source (.ofList before) (.ofList slice) (.ofList after) := by
  obtain ⟨htext, rfl⟩ := h
  refine ⟨?_, Mark.advance_start before, ?_⟩
  · rw [← String.ofList_toList (s := source), htext, String.ofList_append, String.ofList_append]
  · rw [← String.ofList_append, ← Mark.advance_start, Mark.advance_append]

/-- The character that a token is by itself. -/
def Token.char? : Token → Option Char
  | .opening kind => some kind.opener
  | .closing kind => some kind.closer
  | .apostrophe => some '\''
  | _ => none

/-- The kind of a bracket. -/
def Token.kind? : Token → Option Bracket
  | .opening kind | .closing kind => some kind
  | _ => none

theorem char?_of_token? {c : Char} {t : Token} (h : (rt.role c).token? = some t) :
    t.char? = some c ∧ ∀ kind, t.kind? = some kind → kind ∈ rt.brackets.kinds := by
  cases hrole : rt.role c with
  | opening kind =>
    rw [hrole] at h
    cases h
    refine ⟨congrArg some (Readtable.opener_of_role hrole), fun kind hkind => ?_⟩
    cases hkind
    exact Readtable.mem_kinds_of_role hrole
  | closing kind =>
    rw [hrole] at h
    cases h
    obtain ⟨hmem, hcloser⟩ := Readtable.closer_of_role hrole
    refine ⟨congrArg some hcloser, fun kind hkind => ?_⟩
    cases hkind
    exact hmem
  | apostrophe =>
    rw [hrole] at h
    cases h
    rw [Readtable.eq_of_role_apostrophe hrole]
    exact ⟨rfl, fun _ hnone => nomatch hnone⟩
  | blank | comment | quote | constituent =>
    rw [hrole] at h
    contradiction

/-- A token that is one character is that character of the source, and its kind is of the
table. -/
theorem exists_names_of_char? {source : String} {t : Located} {c : Char}
    (h : t ∈ (tokenize rt source).tokens) (hchar : t.token.char? = some c) :
    (∃ before after, t.span.Names source before c.toString after) ∧
      ∀ kind, t.token.kind? = some kind → kind ∈ rt.brackets.kinds := by
  obtain ⟨l, before, after, ⟨tail, hnext⟩, htoken, hmarks⟩ := exists_lexeme_of_mem h
  rw [htoken] at hchar ⊢
  obtain ⟨d, hrole, hraw⟩ | ⟨-, body, -, -, hstring, -⟩ | ⟨-, -, -, -, hatom⟩ :=
    (next_cases hnext).2
  · obtain ⟨hd, hkind⟩ := char?_of_token? hrole
    obtain rfl : c = d := Option.some.inj (hchar.symm.trans hd)
    rw [hraw] at hmarks
    have hnames := hmarks.names
    rw [← String.singleton_eq_ofList] at hnames
    exact ⟨⟨_, _, hnames⟩, hkind⟩
  · rw [hstring] at hchar
    contradiction
  · rw [hatom] at hchar
    contradiction

/-- A string that never ends is the rest of the source, from a quote on. -/
theorem exists_names_of_openString {source : String} {place : Span}
    (h : (tokenize rt source).openString = some place) :
    ∃ before body, place.Names source before (.ofList ('"' :: body)) "" := by
  obtain ⟨before, body, hmarks⟩ := exists_of_openString h
  exact ⟨_, body, hmarks.names⟩

end SExpr
