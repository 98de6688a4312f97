import SExpr.Proofs.Parse.Steps
import SExpr.Proofs.Token.Slice

/-! # The text that an error names

An error comes with the place of a token, or of a string that never ends, and its fault
is about that token: an opener that is never closed, a closer that is not due, an
apostrophe. `parse_error_names` says which slice of the source this is, counted in
characters and in bytes. -/

namespace SExpr

/-- What a fault at `place` says about the tokens of the text. -/
def Fault.Concerns (limit : Nat) (stream : TokenStream) (place : Span) : Fault → Prop
  | .unterminatedBracket opener =>
    ∃ kind, ⟨.opening kind, place⟩ ∈ stream.tokens ∧ kind.opener = opener
  | .unexpectedCloser closer =>
    ∃ kind, ⟨.closing kind, place⟩ ∈ stream.tokens ∧ kind.closer = closer
  | .missingQuoted => ⟨.apostrophe, place⟩ ∈ stream.tokens
  | .unterminatedString => stream.openString = some place
  | .nestingTooDeep n => n = limit ∧
    (⟨.apostrophe, place⟩ ∈ stream.tokens ∨ ∃ kind, ⟨.opening kind, place⟩ ∈ stream.tokens)
  | .expectedSingle _ => False

/-- What a fault says about the slice that it names and about the text behind that. -/
def Fault.Describes (t : BracketTable) (limit : Nat) (slice after : String) : Fault → Prop
  | .unterminatedBracket opener =>
    slice = opener.toString ∧ ∃ kind ∈ t.kinds, kind.opener = opener
  | .unexpectedCloser closer =>
    slice = closer.toString ∧ ∃ kind ∈ t.kinds, kind.closer = closer
  | .missingQuoted => slice = "'"
  | .unterminatedString => (∃ body, slice = "\"" ++ body) ∧ after = ""
  | .nestingTooDeep n => n = limit ∧
    (slice = "'" ∨ ∃ kind ∈ t.kinds, slice = kind.opener.toString)
  | .expectedSingle _ => False

/-! ## Errors of a run -/

namespace Machine

variable {o : ParseOptions} {openString : Option Span} {s : State} {ts : List Located}
variable {e : ParseError}

/-- The apostrophe that waits for its expression is one of the tokens. -/
theorem State.Behind.mem_of_pending (hs : s.Behind ts) {place : Span}
    (h : s.pending = some place) : ⟨.apostrophe, place⟩ ∈ ts := by
  obtain ⟨t, hlast, ht⟩ := Option.bind_eq_some_iff.mp (hs.pending.symm.trans h)
  rw [← Located.eq_of_apostrophe? ht]
  exact List.mem_of_getLast? hlast

/-- A refused token is named itself, or the apostrophe before it is. -/
theorem State.Behind.concerns_of_step (hs : s.Behind ts) {t : Located}
    (h : s.step o t = .error e) (after : List Located) :
    e.fault.Concerns o.maxDepth ⟨ts ++ t :: after, openString⟩ e.span := by
  have ht : t ∈ ts ++ t :: after := List.mem_append_cons_self
  rcases step_eq_error h with ⟨hpending, hfault⟩ | ⟨kind, rfl, hfault⟩ | ⟨kind, rfl, hfault⟩
  · have hmem : _ ∈ ts ++ t :: after := List.mem_append_left _ (hs.mem_of_pending hpending)
    rcases hfault with hfault | hfault <;> rw [hfault]
    · exact hmem
    · exact ⟨rfl, .inl hmem⟩
  · rw [hfault]
    exact ⟨kind, ht, rfl⟩
  · rw [hfault]
    exact ⟨rfl, .inr ⟨kind, ht⟩⟩

theorem State.Behind.concerns_of_finish (hs : s.Behind ts) (h : s.finish openString = .error e) :
    e.fault.Concerns o.maxDepth ⟨ts, openString⟩ e.span := by
  rcases finish_eq_error h with ⟨hopen, hfault⟩ | ⟨-, hpending, hfault⟩ |
    ⟨-, -, kind, outer, hopened, hfault⟩ <;> rw [hfault]
  · exact hopen
  · exact hs.mem_of_pending hpending
  · have hmem : (kind, e.span) ∈ openBrackets ts := by
      rw [← hs.opened, hopened]
      exact List.mem_cons_self
    exact ⟨kind, mem_of_mem_openBrackets hmem, rfl⟩

theorem concerns_of_run (h : State.start.run o openString ts = .error e) :
    e.fault.Concerns o.maxDepth ⟨ts, openString⟩ e.span := by
  rw [run_eq] at h
  rcases bind_eq_error_iff.mp h with hsteps | ⟨s, hsteps, hfinish⟩
  · obtain ⟨before, t, after, s, rfl, hbefore, hstep⟩ := steps_eq_error hsteps
    exact (behind_of_steps hbefore).concerns_of_step hstep after
  · exact (behind_of_steps hsteps).concerns_of_finish hfinish

end Machine

/-! ## Slices -/

section
variable {rt : Readtable} {source : String} {limit : Nat} {place : Span} {fault : Fault}

/-- A fault is about a token of the text or about the string that never ends. -/
theorem Fault.Concerns.mem_spans {stream : TokenStream} (h : fault.Concerns limit stream place) :
    place ∈ stream.spans := by
  have hmem : ∀ {token}, ⟨token, place⟩ ∈ stream.tokens → place ∈ stream.spans :=
    fun ht => List.mem_append_left _ (List.mem_map_of_mem (f := Located.span) ht)
  cases fault with
  | unterminatedBracket | unexpectedCloser =>
    obtain ⟨kind, ht, -⟩ := h
    exact hmem ht
  | missingQuoted => exact hmem h
  | unterminatedString => exact List.mem_append_right _ (Option.mem_toList.mpr h)
  | nestingTooDeep =>
    obtain ⟨-, ht | ⟨kind, ht⟩⟩ := h
    · exact hmem ht
    · exact hmem ht
  | expectedSingle => exact h.elim

/-- What a fault says about the tokens it says about the source. -/
theorem Fault.Concerns.describes (h : fault.Concerns limit (tokenize rt source) place) :
    ∃ before slice after, place.Names source before slice after ∧
      fault.Describes rt.brackets limit slice after := by
  cases fault with
  | unterminatedBracket | unexpectedCloser =>
    obtain ⟨kind, ht, rfl⟩ := h
    obtain ⟨⟨before, after, hnames⟩, hkind⟩ := exists_names_of_char? ht rfl
    exact ⟨before, _, after, hnames, rfl, kind, hkind kind rfl, rfl⟩
  | missingQuoted =>
    obtain ⟨⟨before, after, hnames⟩, -⟩ := exists_names_of_char? h rfl
    exact ⟨before, _, after, hnames, rfl⟩
  | unterminatedString =>
    obtain ⟨before, body, hnames⟩ := exists_names_of_openString h
    exact ⟨before, _, "", hnames, ⟨.ofList body, String.ofList_cons⟩, rfl⟩
  | nestingTooDeep n =>
    obtain ⟨rfl, ht | ⟨kind, ht⟩⟩ := h
    · obtain ⟨⟨before, after, hnames⟩, -⟩ := exists_names_of_char? ht rfl
      exact ⟨before, _, after, hnames, rfl, .inl rfl⟩
    · obtain ⟨⟨before, after, hnames⟩, hkind⟩ := exists_names_of_char? ht rfl
      exact ⟨before, _, after, hnames, rfl, .inr ⟨kind, hkind kind rfl, rfl⟩⟩
  | expectedSingle => exact h.elim

theorem Fault.Describes.ne_empty {t : BracketTable} {slice after : String}
    (h : fault.Describes t limit slice after) : slice ≠ "" := by
  have hchar : ∀ c : Char, c.toString ≠ "" := fun c => by simp [Char.toString]
  cases fault with
  | unterminatedBracket | unexpectedCloser =>
    rw [h.1]
    exact hchar _
  | missingQuoted =>
    rw [show slice = "'" from h]
    decide
  | unterminatedString =>
    obtain ⟨⟨body, rfl⟩, -⟩ := h
    simp
  | nestingTooDeep =>
    obtain ⟨-, rfl | ⟨kind, -, rfl⟩⟩ := h
    · decide
    · exact hchar _
  | expectedSingle => exact h.elim

end

/-- The span of an error is the span of a token of the text, or of the string that never
ends. It cuts a slice out of the source, and this is what the fault describes; the
position is the number of characters before it. -/
theorem parse_error_names {t : BracketTable} {o : ParseOptions} {source : String} {e : ParseError}
    (h : parse t o source = .error e) :
    e.span ∈ (tokenize (o.readtable t) source).spans ∧
      ∃ before slice after, e.span.Names source before slice after ∧ slice ≠ "" ∧
        e.position = before.length ∧ e.fault.Describes t o.maxDepth slice after := by
  unfold parse at h
  rw [Reader.program_eq_run] at h
  have hconcerns := Machine.concerns_of_run h
  obtain ⟨before, slice, after, hnames, hdescribes⟩ := Fault.Concerns.describes hconcerns
  refine ⟨hconcerns.mem_spans, before, slice, after, hnames, hdescribes.ne_empty, ?_, hdescribes⟩
  rw [ParseError.position, hnames.first_eq]
  rfl

/-- A bracket of two bytes is left open behind another character of two bytes: it is the
seventh character, and begins with the eighth byte. -/
theorem parse_error_names_guillemet :
    parse (BracketTable.default.offer ⟨'«', '»'⟩) {} "é\n 'a «b" =
      .error ⟨.unterminatedBracket '«', ⟨⟨6, 7⟩, ⟨7, 9⟩⟩⟩ ∧
    ∃ before slice after,
      Span.Names ⟨⟨6, 7⟩, ⟨7, 9⟩⟩ "é\n 'a «b" before slice after ∧ before.length = 6 ∧
      slice = "«" := by
  have htokens : tokenize ⟨BracketTable.default.offer ⟨'«', '»'⟩, ';'⟩ "é\n 'a «b" =
      ⟨[⟨.atom "é" false, ⟨⟨0, 0⟩, ⟨1, 2⟩⟩⟩, ⟨.apostrophe, ⟨⟨3, 4⟩, ⟨4, 5⟩⟩⟩,
        ⟨.atom "a" false, ⟨⟨4, 5⟩, ⟨5, 6⟩⟩⟩, ⟨.opening ⟨'«', '»'⟩, ⟨⟨6, 7⟩, ⟨7, 9⟩⟩⟩,
        ⟨.atom "b" false, ⟨⟨7, 9⟩, ⟨8, 10⟩⟩⟩], none⟩ := by decide +kernel
  have hparse : parse (BracketTable.default.offer ⟨'«', '»'⟩) {} "é\n 'a «b" =
      .error ⟨.unterminatedBracket '«', ⟨⟨6, 7⟩, ⟨7, 9⟩⟩⟩ := by
    rw [parse, ParseOptions.readtable, htokens, Reader.program_eq_run]
    rfl
  obtain ⟨-, before, slice, after, hnames, -, hposition, hslice, -⟩ := parse_error_names hparse
  exact ⟨hparse, before, slice, after, hnames, hposition.symm, hslice⟩

end SExpr
