import SExpr.Proofs.Token.Spelling

/-! # Gaps and what is between them

A gap is made of blanks and of comments with the newlines that end them. It changes
nothing in the text after it. A lexeme that was cut off one text is cut off any other
text that starts with it and goes on where it may end. -/

namespace SExpr

/-- Blanks, and comments each with the newline that ends it. -/
inductive IsGap (rt : Readtable) : List Char → Prop
  | nil : IsGap rt []
  | blank {c : Char} {gap : List Char} : isBlank c = true → IsGap rt gap → IsGap rt (c :: gap)
  | comment {line gap : List Char} : isBlank rt.comment = false → '\n' ∉ line → IsGap rt gap →
      IsGap rt (rt.comment :: (line ++ '\n' :: gap))

def Token.isAtom : Token → Bool
  | .atom _ _ => true
  | _ => false

/-- An atom with a backslash that has no character to take. -/
def Lexeme.dangles (l : Lexeme) : Bool := l.token.isAtom && Atom.dangles l.raw

variable {rt : Readtable}

/-! ## Gaps -/

/-- A comment is over after the first newline. -/
theorem splitGap_line {line : List Char} (hline : '\n' ∉ line) (rest : List Char) :
    Scan.splitGap rt true (line ++ '\n' :: rest) =
      (line ++ '\n' :: (Scan.splitGap rt false rest).1, (Scan.splitGap rt false rest).2) := by
  induction line with
  | nil => rfl
  | cons c line ih =>
    rw [List.mem_cons, not_or] at hline
    have hc : (c != '\n') = true := bne_iff_ne.mpr (Ne.symm hline.1)
    rw [List.cons_append, Scan.splitGap, if_pos rfl, hc, ih hline.2]
    rfl

theorem IsGap.splitGap {gap : List Char} (h : IsGap rt gap) (rest : List Char) :
    Scan.splitGap rt false (gap ++ rest) =
      (gap ++ (Scan.splitGap rt false rest).1, (Scan.splitGap rt false rest).2) := by
  induction h with
  | nil => rfl
  | blank hblank _ ih =>
    rw [List.cons_append, Scan.splitGap]
    simp only [Bool.false_eq_true, if_false, Readtable.role_blank hblank, ih, List.cons_append]
  | comment hcomment hline _ ih =>
    rw [List.cons_append, List.append_assoc, List.cons_append, Scan.splitGap]
    simp only [Bool.false_eq_true, if_false, Readtable.role_comment hcomment,
      splitGap_line hline, ih, List.cons_append, List.append_assoc]

theorem IsGap.next {gap : List Char} (h : IsGap rt gap) (rest : List Char) :
    Scan.next rt (gap ++ rest) = (Scan.next rt rest).behind gap :=
  next_behind (h.splitGap rest)

theorem IsGap.cuts {gap rest : List Char} {us : List Token} (h : IsGap rt gap)
    (hrest : Cuts rt rest us) : Cuts rt (gap ++ rest) us :=
  hrest.behind gap (h.splitGap rest)

/-- An atom is over at a gap, if the comment character is not taken for an escape. -/
theorem IsGap.stops {gap : List Char} (h : IsGap rt gap) (hne : gap ≠ [])
    (hcomment : '\\' ≠ rt.comment) (rest : List Char) : Atom.Stops rt (gap ++ rest) := by
  cases h with
  | nil => exact absurd rfl hne
  | blank hblank _ =>
    refine ⟨Readtable.endsAtom_of_role (Readtable.role_blank hblank) Role.noConfusion, ?_⟩
    rintro rfl
    contradiction
  | comment hblank _ _ =>
    exact ⟨Readtable.endsAtom_of_role (Readtable.role_comment hblank) Role.noConfusion,
      hcomment.symm⟩

mutual

/-- The blanks and comments at the front of a text are a gap, but for a comment that
the text ends in; the newline that this lacks makes a gap of it, too. -/
theorem isGap_splitGap_append {tail : List Char} (htail : IsGap rt tail) (text : List Char)
    (hend : (Scan.splitGap rt false text).2 = [] → tail = ['\n']) :
    IsGap rt ((Scan.splitGap rt false text).1 ++ tail) := by
  match text with
  | [] => exact htail
  | c :: rest =>
    rw [Scan.splitGap, if_neg Bool.false_ne_true] at hend ⊢
    cases hrole : rt.role c with
    | blank =>
      simp only [hrole] at hend ⊢
      exact .blank (Readtable.isBlank_of_role hrole) (isGap_splitGap_append htail rest hend)
    | comment =>
      simp only [hrole] at hend ⊢
      obtain ⟨hblank, rfl⟩ := Readtable.comment_of_role hrole
      obtain ⟨line, gap, heq, hline, hgap⟩ := exists_line_splitGap_append htail rest hend
      rw [List.cons_append, heq]
      exact .comment hblank hline hgap
    | opening | closing | apostrophe | quote | constituent => exact htail

/-- In a comment the rest of its line comes first. -/
theorem exists_line_splitGap_append {tail : List Char} (htail : IsGap rt tail) (text : List Char)
    (hend : (Scan.splitGap rt true text).2 = [] → tail = ['\n']) :
    ∃ line gap, (Scan.splitGap rt true text).1 ++ tail = line ++ '\n' :: gap ∧
      '\n' ∉ line ∧ IsGap rt gap := by
  match text with
  | [] => exact ⟨[], [], hend rfl, List.not_mem_nil, .nil⟩
  | c :: rest =>
    rw [Scan.splitGap, if_pos rfl] at hend ⊢
    by_cases hc : c = '\n'
    · subst hc
      exact ⟨[], _, rfl, List.not_mem_nil, isGap_splitGap_append htail rest hend⟩
    · rw [bne_iff_ne.mpr hc] at hend ⊢
      obtain ⟨line, gap, heq, hline, hgap⟩ := exists_line_splitGap_append htail rest hend
      refine ⟨c :: line, gap, congrArg (c :: ·) heq, ?_, hgap⟩
      rw [List.mem_cons, not_or]
      exact ⟨Ne.symm hc, hline⟩

end

/-- What ends with a gap is that gap, and complete with one newline more. -/
theorem isGap_of_finished {text gap : List Char}
    (h : Scan.next rt text = .done (.finished gap)) :
    IsGap rt (gap ++ ['\n']) ∧ text = gap := by
  have happend := Scan.splitGap_append rt false text
  have hgap : IsGap rt _ := isGap_splitGap_append (.blank rfl .nil) text fun _ => rfl
  unfold Scan.next at h
  dsimp only at h
  split at h
  · rename_i hafter
    cases h
    rw [hafter, List.append_nil] at happend
    exact ⟨hgap, happend.symm⟩
  · split at h
    any_goals contradiction
    split at h <;> cases h

/-- A text can end in a string only from a quote on, with a gap before it. -/
theorem isGap_of_openString {text gap raw : List Char}
    (h : Scan.next rt text = .done (.openString gap raw)) :
    IsGap rt gap ∧ text = gap ++ raw ∧ ∃ body, raw = '"' :: body := by
  have happend := Scan.splitGap_append rt false text
  unfold Scan.next at h
  dsimp only at h
  split at h
  · cases h
  · rename_i c rest hafter
    have hgap : IsGap rt _ := isGap_splitGap_append .nil text fun hnil => by
      rw [hafter] at hnil
      contradiction
    rw [List.append_nil] at hgap
    rw [hafter] at happend
    split at h
    any_goals contradiction
    rename_i hrole
    split at h
    · contradiction
    · cases h
      exact ⟨hgap, happend.symm, rest, by rw [Readtable.eq_of_role_quote hrole]⟩

/-! ## Lexemes -/

/-- Behind its gap a text is cut as if it began there. -/
theorem next_of_splitGap {text after : List Char} {c : Char}
    (h : (Scan.splitGap rt false text).2 = c :: after) :
    Scan.next rt text = (Scan.next rt (c :: after)).behind (Scan.splitGap rt false text).1 := by
  obtain ⟨hblank, hcomment⟩ := Scan.role_of_splitGap h
  refine next_behind ?_
  rw [splitGap_token rfl hblank hcomment, List.append_nil, ← h]

/-- How a lexeme is cut off behind its gap: it is a character that is a token by
itself, a string, or an atom. -/
theorem next_cases {text rest : List Char} {l : Lexeme} (h : Scan.next rt text = .more l rest) :
    IsGap rt l.gap ∧
      ((∃ c, (rt.role c).token? = some l.token ∧ l.raw = [c]) ∨
        (∃ c body, rt.role c = .quote ∧ l.raw = c :: (body ++ ['"']) ∧
          l.token = .string (.ofList (StringLiteral.decode body)) ∧
          ∃ after, StringLiteral.splitBody? after = some (body, rest)) ∨
        ∃ c after, rt.role c = .constituent ∧ Atom.split rt (c :: after) = (l.raw, rest) ∧
          l.token = .atom (.ofList (Atom.decode l.raw)) (Atom.isEscaped l.raw)) := by
  cases hafter : (Scan.splitGap rt false text).2 with
  | nil =>
    simp only [Scan.next, hafter] at h
    contradiction
  | cons c after =>
    have hgap : IsGap rt _ := isGap_splitGap_append .nil text fun hnil => by
      rw [hafter] at hnil
      contradiction
    rw [List.append_nil] at hgap
    obtain ⟨hblank, hcomment⟩ := Scan.role_of_splitGap hafter
    rw [next_of_splitGap hafter] at h
    cases hrole : rt.role c with
    | blank => exact absurd hrole hblank
    | comment => exact absurd hrole hcomment
    | opening | closing | apostrophe =>
      rw [next_single (by rw [hrole]; rfl) after] at h
      cases h
      exact ⟨by simpa using hgap, .inl ⟨c, by rw [hrole]; rfl, rfl⟩⟩
    | quote =>
      cases hbody : StringLiteral.splitBody? after with
      | none =>
        simp only [Scan.next, splitGap_token rfl hblank hcomment, hrole, hbody] at h
        cases h
      | some p =>
        rw [next_string hrole hbody] at h
        cases h
        exact ⟨by simpa using hgap, .inr (.inl ⟨c, p.1, hrole, rfl, rfl, after, hbody⟩)⟩
    | constituent =>
      rw [next_atom hrole rfl] at h
      cases h
      exact ⟨by simpa using hgap, .inr (.inr ⟨c, after, hrole, rfl, rfl⟩)⟩

theorem stops_of_role (hescape : rt.role '\\' = .constituent) {c : Char}
    (hrole : rt.role c ≠ .constituent) (rest : List Char) : Atom.Stops rt (c :: rest) := by
  refine ⟨Readtable.endsAtom_of_role rfl hrole, ?_⟩
  rintro rfl
  exact hrole hescape

theorem isAtom_of_token? {role : Role} {t : Token} (h : role.token? = some t) :
    t.isAtom = false := by
  cases role <;> cases h <;> rfl

section
variable {text rest : List Char} {l : Lexeme} (h : Scan.next rt text = .more l rest)
include h

/-- An atom is cut off whole, and starts with its first character. -/
theorem split_of_next (hatom : l.token.isAtom = true) :
    ∃ c tail, rt.role c = .constituent ∧ l.raw = c :: tail ∧
      l.token = .atom (.ofList (Atom.decode l.raw)) (Atom.isEscaped l.raw) ∧
      ∃ after, Atom.split rt after = (l.raw, rest) := by
  obtain ⟨c, htoken, -⟩ | ⟨c, body, -, -, htoken, -⟩ | ⟨c, after, hrole, hsplit, htoken⟩ :=
    (next_cases h).2
  · rw [isAtom_of_token? htoken] at hatom
    contradiction
  · rw [htoken] at hatom
    contradiction
  · obtain ⟨d, tail, hraw⟩ := List.exists_cons_of_ne_nil (Scan.raw_ne_nil h)
    have happend := Atom.split_append rt (c :: after)
    rw [hsplit, hraw] at happend
    obtain ⟨rfl, -⟩ := List.cons.inj happend
    exact ⟨d, tail, hrole, hraw, htoken, d :: after, hsplit⟩

/-- Any other token shows where it ends by itself. -/
theorem raw_of_next (hatom : l.token.isAtom = false) :
    (∃ c, (rt.role c).token? = some l.token ∧ l.raw = [c]) ∨
      ∃ c body, rt.role c = .quote ∧ l.raw = c :: (body ++ ['"']) ∧
        l.token = .string (.ofList (StringLiteral.decode body)) ∧
        ∃ after, StringLiteral.splitBody? after = some (body, rest) := by
  obtain hsingle | hstring | ⟨c, after, -, -, htoken⟩ := (next_cases h).2
  · exact .inl hsingle
  · exact .inr hstring
  · rw [htoken] at hatom
    contradiction

/-- What is behind an atom is a text at which atoms are over. -/
theorem stops_of_next (hatom : l.token.isAtom = true) : Atom.Stops rt rest := by
  obtain ⟨-, -, -, -, -, after, hsplit⟩ := split_of_next h hatom
  have hstops := Atom.stops_split rt after
  rwa [hsplit] at hstops

/-- A backslash without a character to take is at the end of the text. -/
theorem eq_nil_of_dangles (hdangles : l.dangles = true) : rest = [] := by
  obtain ⟨hatom, hraw⟩ := Bool.and_eq_true_iff.mp hdangles
  obtain ⟨-, -, -, -, -, after, hsplit⟩ := split_of_next h hatom
  have hnil : Atom.dangles (Atom.split rt after).1 = true → (Atom.split rt after).2 = [] :=
    Atom.split_eq_nil_of_dangles
  rw [hsplit] at hnil
  exact hnil hraw

/-- A token that is no atom begins where an atom is over. -/
theorem stops_raw (hescape : rt.role '\\' = .constituent) (hatom : l.token.isAtom = false)
    (rest' : List Char) : Atom.Stops rt (l.raw ++ rest') := by
  obtain ⟨c, htoken, hraw⟩ | ⟨c, body, hrole, hraw, -⟩ := raw_of_next h hatom
  · rw [hraw]
    refine stops_of_role hescape (fun hrole => ?_) _
    rw [hrole] at htoken
    contradiction
  · rw [hraw]
    exact stops_of_role hescape (by rw [hrole]; exact Role.noConfusion) _

/-- The lexeme is cut off every text that starts with it and goes on where it may end. -/
theorem next_raw {rest' : List Char} (hstop : l.token.isAtom = true → Atom.Stops rt rest')
    (hend : l.dangles = true → rest' = []) :
    Scan.next rt (l.raw ++ rest') = .more { l with gap := [] } rest' := by
  cases hatom : l.token.isAtom with
  | true =>
    obtain ⟨c, tail, hrole, hraw, htoken, after, hsplit⟩ := split_of_next h hatom
    have hagain := Atom.split_split after (hstop hatom) fun hdangles => by
      rw [hsplit] at hdangles
      exact hend (Bool.and_eq_true_iff.mpr ⟨hatom, hdangles⟩)
    rw [hsplit, hraw] at hagain
    rw [htoken, hraw]
    exact next_atom hrole hagain
  | false =>
    obtain ⟨c, htoken, hraw⟩ | ⟨c, body, hrole, hraw, htoken, after, hbody⟩ := raw_of_next h hatom
    · rw [hraw]
      exact next_single htoken rest'
    · rw [hraw, htoken, List.cons_append, List.append_assoc]
      exact next_string hrole (StringLiteral.splitBody?_of_splitBody? hbody rest')

/-- And so is its gap with it. -/
theorem next_append {rest' : List Char} (hstop : l.token.isAtom = true → Atom.Stops rt rest')
    (hend : l.dangles = true → rest' = []) :
    Scan.next rt (l.gap ++ l.raw ++ rest') = .more l rest' := by
  rw [List.append_assoc, (next_cases h).1.next, next_raw h hstop hend, Scan.Step.behind,
    List.append_nil]

end

end SExpr
