import SExpr.Proofs.Parse.Relocate
import SExpr.Proofs.RoundTrip
import SExpr.Proofs.Token.Gap

/-! # The same tokens with other gaps

What is between the tokens of a text means nothing but that they are apart: any gap may
become any other one, and none may be needed at all. Two atoms need one, or they would
be one atom, and a backslash at the end of the text has no character to take only as
long as it is the end. -/

namespace SExpr

/-- The gap behind a lexeme is long enough for the next one of `rest`. -/
def Separates (l : Lexeme) (gap : List Char) : List Lexeme → Prop
  | [] => l.dangles = true → gap = []
  | next :: _ => l.token.isAtom = true → next.token.isAtom = true → gap ≠ []

/-- The lexemes one after another, each with some gap behind it. -/
inductive Spaced (rt : Readtable) : List Lexeme → List Char → Prop
  | nil : Spaced rt [] []
  | cons {l : Lexeme} {rest : List Lexeme} {gap text : List Char} : IsGap rt gap →
      Separates l gap rest → Spaced rt rest text → Spaced rt (l :: rest) (l.raw ++ gap ++ text)

/-- The text has the lexemes of the source, with some gaps before, between and behind them. -/
def Respaces (rt : Readtable) (source text : String) : Prop :=
  ∃ gap spaced, IsGap rt gap ∧ Spaced rt (scan rt source.toList).lexemes spaced ∧
    text.toList = gap ++ spaced

namespace Spaced

variable {rt : Readtable} {l : Lexeme} {gap source text : List Char}

/-- An atom is over where a lexeme begins that it is separated from. -/
theorem stops (hescape : rt.role '\\' = .constituent) (h : Spaced rt (scan rt source).lexemes text)
    (hsep : Separates l [] (scan rt source).lexemes) (hatom : l.token.isAtom = true) :
    Atom.Stops rt text := by
  cases hnext : Scan.next rt source with
  | done ending =>
    rw [scan_of_done hnext] at h
    cases h
    trivial
  | more next rest =>
    rw [scan_of_more hnext] at h hsep
    cases h with
    | @cons _ _ gap text =>
      have hother : next.token.isAtom = false :=
        Bool.eq_false_iff.mpr fun hnextAtom => hsep hatom hnextAtom rfl
      rw [List.append_assoc]
      exact stops_raw hnext hescape hother (gap ++ text)

/-- Behind a backslash that has no character to take there is nothing. -/
theorem eq_nil_of_dangles (h : Spaced rt (scan rt []).lexemes text)
    (hsep : Separates l gap (scan rt []).lexemes) (hdangles : l.dangles = true) :
    gap ++ text = [] := by
  rw [scan_of_done rfl] at h hsep
  cases h
  rw [hsep hdangles, List.append_nil]

/-- Each lexeme is cut off where its gap or the next lexeme begins. -/
theorem cuts (hescape : rt.role '\\' = .constituent) (hcomment : '\\' ≠ rt.comment)
    {source text : List Char} (h : Spaced rt (scan rt source).lexemes text) :
    Cuts rt text ((scan rt source).lexemes.map Lexeme.token) := by
  cases hnext : Scan.next rt source with
  | done ending =>
    rw [scan_of_done hnext] at h ⊢
    cases h
    exact cuts_nil
  | more l rest =>
    have hlt := Scan.length_lt_of_next hnext
    rw [scan_of_more hnext] at h ⊢
    cases h with
    | @cons _ _ gap text hgap hsep hrest =>
      have hstop : l.token.isAtom = true → Atom.Stops rt (gap ++ text) := by
        intro hatom
        by_cases hnone : gap = []
        · subst hnone
          exact hrest.stops hescape hsep hatom
        · exact hgap.stops hnone hcomment text
      have hend : l.dangles = true → gap ++ text = [] := by
        intro hdangles
        obtain rfl := SExpr.eq_nil_of_dangles hnext hdangles
        exact hrest.eq_nil_of_dangles hsep hdangles
      have hmore := hgap.cuts (cuts hescape hcomment hrest)
      rw [List.append_assoc]
      exact hmore.cons (l := { l with gap := [] }) (next_raw hnext hstop hend)
termination_by source.length

end Spaced

/-- Whatever gaps a text has instead of those of a source, before, between and behind its
tokens, it is cut into the same tokens and read as the same values or with the same
fault. Only two atoms have to stay apart, and nothing may follow a backslash that has no
character to take. -/
theorem parse_of_respaces {t : BracketTable} (ht : t.Reachable) {o : ParseOptions}
    (hcomment : o.comment ≠ '\\') {source text : String} {ts : List Token}
    (hsource : Tokenizes (o.readtable t) source ts) (h : Respaces (o.readtable t) source text) :
    Tokenizes (o.readtable t) text ts ∧
      (parse t o text).mapError ParseError.fault =
        (parse t o source).mapError ParseError.fault := by
  obtain ⟨gap, spaced, hgap, hspaced, heq⟩ := h
  have hescape : (o.readtable t).role '\\' = .constituent :=
    Readtable.role_backslash ht.wellFormed hcomment.symm
  have hcuts := hgap.cuts (hspaced.cuts hescape hcomment.symm)
  rw [← heq, hsource.cuts.1] at hcuts
  have htext := Tokenizes.of_cuts hcuts
  refine ⟨htext, ?_⟩
  rw [parse, parse, htext.2, hsource.2]
  exact Reader.program_fault_eq o (htext.1.trans hsource.1.symm)

/-- A list in which a comment is all that keeps two atoms apart. -/
theorem parse_of_respaces_comment :
    Respaces ⟨.default, ';'⟩ "(a b)" " (a;)\nb) " ∧
    Tokenizes ⟨.default, ';'⟩ " (a;)\nb) "
      [.opening .parens, .atom "a" false, .atom "b" false, .closing .parens] ∧
    (parse .default {} " (a;)\nb) ").mapError ParseError.fault =
      (parse .default {} "(a b)").mapError ParseError.fault := by
  have hscan : (scan ⟨.default, ';'⟩ "(a b)".toList).lexemes =
      [⟨[], ['('], .opening .parens⟩, ⟨[], ['a'], .atom "a" false⟩,
        ⟨[' '], ['b'], .atom "b" false⟩, ⟨[], [')'], .closing .parens⟩] := by decide +kernel
  have hblank : IsGap ⟨.default, ';'⟩ [' '] := .blank rfl .nil
  have hline : '\n' ∉ [')'] := by decide
  have hcomment : IsGap ⟨.default, ';'⟩ [';', ')', '\n'] := .comment rfl hline .nil
  have hspaced : Spaced ⟨.default, ';'⟩ (scan ⟨.default, ';'⟩ "(a b)".toList).lexemes
      (['('] ++ [] ++ (['a'] ++ [';', ')', '\n'] ++ (['b'] ++ [] ++ ([')'] ++ [' '] ++ [])))) := by
    rw [hscan]
    refine .cons .nil ?_ (.cons hcomment ?_ (.cons .nil ?_ (.cons hblank ?_ .nil)))
    · exact fun h => nomatch h
    · exact fun _ _ => List.cons_ne_nil _ _
    · exact fun _ h => nomatch h
    · exact fun h => nomatch h
  have hspaces : Respaces ⟨.default, ';'⟩ "(a b)" " (a;)\nb) " :=
    ⟨_, _, hblank, hspaced, by decide⟩
  have hsource : Tokenizes ⟨.default, ';'⟩ "(a b)"
      [.opening .parens, .atom "a" false, .atom "b" false, .closing .parens] :=
    ⟨by decide +kernel, by decide +kernel⟩
  exact ⟨hspaces, parse_of_respaces ⟨[], rfl⟩ (o := {}) (by decide) hsource hspaces⟩
end SExpr
