import SExpr.Proofs.Parse.Grammar
import SExpr.Proofs.Parse.Relocate
import SExpr.Proofs.Token.Gap

/-! # One text after another

A text that is read whole leaves nothing open: a newline ends its last atom or comment,
and what comes after that newline is read as it is by itself, with the places of its
errors counted from the start of the first text. Only a backslash at the very end of
the first text would take the newline. -/

namespace SExpr

/-! ## Places -/

/-- Where the place `m` of a text is if the text begins at `d`. -/
def Mark.shift (d m : Mark) : Mark := ⟨m.chars + d.chars, m.bytes + d.bytes⟩

def Span.shift (d : Mark) (s : Span) : Span := ⟨d.shift s.first, d.shift s.last⟩

theorem Mark.shift_advance (d m : Mark) (text : List Char) :
    (d.shift m).advance text = d.shift (m.advance text) := by
  simp only [shift, advance, Mark.mk.injEq]
  omega

theorem Mark.shift_start (d : Mark) : d.shift .start = d := by
  simp only [shift, start, Nat.zero_add]

namespace TokenStream

/-- The tokens `ts` first. -/
def prepend (ts : List Located) (s : TokenStream) : TokenStream := ⟨ts ++ s.tokens, s.openString⟩

def relocate (f : Span → Span) (s : TokenStream) : TokenStream :=
  ⟨s.tokens.map (Located.relocate f), s.openString.map f⟩

end TokenStream

/-- The token of a lexeme whose gap begins at `m`. -/
def Lexeme.located (m : Mark) (l : Lexeme) : Located :=
  ⟨l.token, ⟨m.advance l.gap, (m.advance l.gap).advance l.raw⟩⟩

namespace Scan

/-- The tokens of a text that begins at `m`. -/
def locatedFrom (m : Mark) (s : Scan) : TokenStream :=
  let (tokens, finish) := place m s.lexemes
  match s.ending with
  | .finished _ => ⟨tokens, none⟩
  | .openString gap raw =>
    let first := finish.advance gap
    ⟨tokens, some ⟨first, first.advance raw⟩⟩

theorem locatedFrom_start (s : Scan) : s.locatedFrom .start = s.located := rfl

theorem locatedFrom_cons (m : Mark) (l : Lexeme) (ls : List Lexeme) (ending : Ending) :
    locatedFrom m ⟨l :: ls, ending⟩ =
      (locatedFrom (l.located m).span.last ⟨ls, ending⟩).prepend [l.located m] := by
  cases ending <;> rfl

theorem locatedFrom_shift (d m : Mark) (s : Scan) :
    s.locatedFrom (d.shift m) = (s.locatedFrom m).relocate (Span.shift d) := by
  obtain ⟨ls, ending⟩ := s
  induction ls generalizing m with
  | nil =>
    cases ending with
    | finished gap => rfl
    | openString gap raw =>
      simp only [locatedFrom, place, Mark.shift_advance]
      rfl
  | cons l ls ih =>
    have hfirst : l.located (d.shift m) = (l.located m).relocate (Span.shift d) := by
      simp only [Lexeme.located, Mark.shift_advance]
      rfl
    rw [locatedFrom_cons, locatedFrom_cons, hfirst]
    refine (congrArg (TokenStream.prepend _) (ih _)).trans rfl

/-- Whether a backslash at the end of the text has no character to take. -/
def dangles (s : Scan) : Bool := s.lexemes.getLast?.any Lexeme.dangles

theorem dangles_cons_eq_false_iff {l : Lexeme} {ls : List Lexeme} {ending : Ending} :
    dangles ⟨l :: ls, ending⟩ = false ↔
      (ls = [] → l.dangles = false) ∧ dangles ⟨ls, ending⟩ = false := by
  cases ls with
  | nil => simp [dangles]
  | cons l' ls => simp [dangles, List.getLast?_cons_cons]

end Scan

/-! ## Tokens -/

section
variable {rt : Readtable}

theorem locatedFrom_of_more {text rest : List Char} {l : Lexeme}
    (h : Scan.next rt text = .more l rest) (m : Mark) :
    (scan rt text).locatedFrom m =
      ((scan rt rest).locatedFrom (l.located m).span.last).prepend [l.located m] := by
  rw [scan_of_more h, Scan.locatedFrom_cons]

/-- A text with a gap before it has the tokens of the text where that begins. -/
theorem locatedFrom_behind {text rest gap : List Char}
    (h : Scan.next rt text = (Scan.next rt rest).behind gap) (m : Mark) :
    (scan rt text).locatedFrom m = (scan rt rest).locatedFrom (m.advance gap) := by
  cases hnext : Scan.next rt rest with
  | done ending =>
    rw [hnext] at h
    cases ending with
    | finished g =>
      rw [scan_of_done h, scan_of_done hnext]
      rfl
    | openString g raw =>
      rw [scan_of_done h, scan_of_done hnext]
      simp only [Scan.locatedFrom, Scan.place, Mark.advance_append]
  | more l after =>
    rw [hnext] at h
    have hfirst : Lexeme.located m { l with gap := gap ++ l.gap } = l.located (m.advance gap) := by
      simp only [Lexeme.located, Mark.advance_append]
    rw [locatedFrom_of_more h, locatedFrom_of_more hnext, hfirst]

theorem stops_newline (rest : List Char) : Atom.Stops rt ('\n' :: rest) :=
  ⟨Readtable.endsAtom_of_role (Readtable.role_blank rfl) Role.noConfusion, by decide⟩

/-- The tokens of a text that is not left open, and then those of the text behind a
newline. -/
theorem locatedFrom_append (text more : List Char) (m : Mark)
    (hopen : ((scan rt text).locatedFrom m).openString = none)
    (hend : (scan rt text).dangles = false) :
    (scan rt (text ++ '\n' :: more)).locatedFrom m =
      ((scan rt more).locatedFrom (m.advance (text ++ ['\n']))).prepend
        ((scan rt text).locatedFrom m).tokens := by
  cases hnext : Scan.next rt text with
  | done ending =>
    rw [scan_of_done hnext] at hopen ⊢
    cases ending with
    | openString gap raw => contradiction
    | finished gap =>
      obtain ⟨hgap, rfl⟩ := isGap_of_finished hnext
      have hbehind := locatedFrom_behind (hgap.next more) m
      rw [List.append_assoc, List.singleton_append] at hbehind
      exact hbehind
  | more l rest =>
    have hlt := Scan.length_lt_of_next hnext
    have htext := Scan.next_eq_append hnext
    rw [locatedFrom_of_more hnext] at hopen
    rw [scan_of_more hnext] at hend
    obtain ⟨hlast, hend⟩ := Scan.dangles_cons_eq_false_iff.mp hend
    have hstop : l.token.isAtom = true → Atom.Stops rt (rest ++ '\n' :: more) :=
      fun hatom => (stops_of_next hnext hatom).append (stops_newline more)
    have hfree : l.dangles = true → rest ++ '\n' :: more = [] := by
      intro hdangles
      obtain rfl := eq_nil_of_dangles hnext hdangles
      rw [hlast (by rw [scan_of_done rfl])] at hdangles
      contradiction
    have hfirst := next_append hnext hstop hfree
    rw [← List.append_assoc, ← htext] at hfirst
    have hmore := locatedFrom_append rest more (l.located m).span.last hopen hend
    have hmark : (l.located m).span.last.advance (rest ++ ['\n']) = m.advance (text ++ ['\n']) := by
      rw [htext]
      simp only [Lexeme.located, Mark.advance_append]
    rw [locatedFrom_of_more hfirst, locatedFrom_of_more hnext, hmore, hmark]
    rfl
termination_by text.length

/-- The same for whole texts: the places in the second are moved by the first. -/
theorem tokenize_append {text : String} (hopen : (tokenize rt text).openString = none)
    (hend : (scan rt text.toList).dangles = false) (more : String) :
    tokenize rt (text ++ "\n" ++ more) =
      ((tokenize rt more).relocate (Span.shift ⟨text.length + 1, text.utf8ByteSize + 1⟩)).prepend
        (tokenize rt text).tokens := by
  have hmark : Mark.start.advance (text.toList ++ ['\n']) =
      (⟨text.length + 1, text.utf8ByteSize + 1⟩ : Mark).shift .start := by
    rw [Mark.shift_start, Mark.advance_append, Mark.advance, Mark.advance, byteLength_eq,
      String.ofList_toList, Mark.start, Nat.zero_add, Nat.zero_add]
    rfl
  have htext : (text ++ "\n" ++ more).toList = text.toList ++ '\n' :: more.toList := by simp
  have hall := locatedFrom_append text.toList more.toList .start hopen hend
  rw [hmark, Scan.locatedFrom_shift, ← htext] at hall
  exact hall

end

/-! ## Texts -/

/-- A text that is read whole, a newline and another text are read as the values of both,
or with the error of the second at its place in the whole. A dangling backslash at the
end of the first text is excluded. -/
theorem parse_append {t : BracketTable} {o : ParseOptions} {text : String} {values : List Value}
    (h : parse t o text = .ok values) (hend : (scan (o.readtable t) text.toList).dangles = false)
    (more : String) :
    parse t o (text ++ "\n" ++ more) =
      match parse t o more with
      | .ok values' => .ok (values ++ values')
      | .error e =>
        .error (e.relocate (Span.shift ⟨text.length + 1, text.utf8ByteSize + 1⟩)) := by
  obtain ⟨ts, ds, ⟨hts, hopen⟩, hds, rfl⟩ := parse_sound h
  have htokens := tokenize_append hopen hend more
  unfold parse
  rw [htokens]
  simp only [TokenStream.prepend, TokenStream.relocate]
  rw [Reader.program_append hds hts, Reader.program_relocate]
  cases Reader.program o _ (tokenize (o.readtable t) more).tokens <;> rfl

/-- A comment that ends with the text, a character of two bytes, and a list that is
never closed. -/
theorem parse_append_comment :
    parse .default {} "é ;(" = .ok [.symbol "é"] ∧
    parse .default {} ("é ;(" ++ "\n" ++ "(a") =
      .error ⟨.unterminatedBracket '(', ⟨⟨5, 6⟩, ⟨6, 7⟩⟩⟩ := by
  have hfirst : parse .default {} "é ;(" = .ok [.symbol "é"] := by
    have htokens : tokenize ⟨.default, ';'⟩ "é ;(" =
        ⟨[⟨.atom "é" false, ⟨⟨0, 0⟩, ⟨1, 2⟩⟩⟩], none⟩ := by decide +kernel
    rw [parse, ParseOptions.readtable, htokens, Reader.program_eq_run]
    rfl
  have hsecond : parse .default {} "(a" = .error ⟨.unterminatedBracket '(', ⟨⟨0, 0⟩, ⟨1, 1⟩⟩⟩ := by
    have htokens : tokenize ⟨.default, ';'⟩ "(a" =
        ⟨[⟨.opening .parens, ⟨⟨0, 0⟩, ⟨1, 1⟩⟩⟩, ⟨.atom "a" false, ⟨⟨1, 1⟩, ⟨2, 2⟩⟩⟩], none⟩ := by
      decide +kernel
    rw [parse, ParseOptions.readtable, htokens, Reader.program_eq_run]
    rfl
  have hall := parse_append hfirst (by decide +kernel) "(a"
  rw [hsecond] at hall
  exact ⟨hfirst, hall⟩
end SExpr
