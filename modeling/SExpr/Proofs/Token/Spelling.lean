import SExpr.Proofs.Readtable
import SExpr.Proofs.Text.Atom
import SExpr.Proofs.Text.StringReading
import SExpr.Token

/-! # Texts that spell tokens

`Cuts` says which tokens a whole text is cut into. `Spells` says it of a piece,
whatever follows it: the tokens of the piece come first and those of the rest are
not disturbed, provided that an atom is over where the rest begins. -/

namespace SExpr

/-- The text is cut into these tokens, no string being left open. -/
def Cuts (rt : Readtable) (text : List Char) (ts : List Token) : Prop :=
  (scan rt text).lexemes.map Lexeme.token = ts ∧ ∃ gap, (scan rt text).ending = .finished gap

/-- The tokens of a piece of text, before any rest at which an atom is over. -/
def Spells (rt : Readtable) (piece : List Char) (ts : List Token) : Prop :=
  ∀ rest us, Atom.Stops rt rest → Cuts rt rest us → Cuts rt (piece ++ rest) (ts ++ us)

/-- Whether a token opens or closes a sequence. -/
def Token.isBracket : Token → Bool
  | .opening _ | .closing _ => true
  | _ => false

/-- How many sequences the tokens open and close. -/
def bracketCount (ts : List Token) : Nat := ts.countP Token.isBracket

@[simp]
theorem bracketCount_append (ts us : List Token) :
    bracketCount (ts ++ us) = bracketCount ts + bracketCount us := List.countP_append

/-- An opener and a closer around tokens are two more. -/
theorem bracketCount_enclosed (kind : Bracket) (ts : List Token) :
    bracketCount (.opening kind :: (ts ++ [.closing kind])) = bracketCount ts + 2 := by
  rw [bracketCount, List.countP_cons_of_pos rfl, List.countP_append,
    List.countP_cons_of_pos rfl, List.countP_nil]
  rfl

variable {rt : Readtable} {c : Char} {rest : List Char} {us : List Token}

/-! ## One token more -/

theorem scan_of_done {text : List Char} {ending : Ending} (h : Scan.next rt text = .done ending) :
    scan rt text = ⟨[], ending⟩ := by
  rw [scan.eq_def]
  split
  · rename_i e he
    cases h.symm.trans he
    rfl
  · rename_i l r hm
    cases h.symm.trans hm

theorem scan_of_more {text rest : List Char} {l : Lexeme} (h : Scan.next rt text = .more l rest) :
    scan rt text = ⟨l :: (scan rt rest).lexemes, (scan rt rest).ending⟩ := by
  rw [scan.eq_def]
  split
  · rename_i e he
    cases h.symm.trans he
  · rename_i l r hm
    cases h.symm.trans hm
    rfl

theorem scan_nil : scan rt [] = ⟨[], .finished []⟩ := scan_of_done rfl

theorem cuts_nil : Cuts rt [] [] := by
  rw [Cuts, scan_nil]
  exact ⟨rfl, [], rfl⟩

theorem Cuts.cons {text : List Char} {l : Lexeme} (h : Cuts rt rest us)
    (hnext : Scan.next rt text = .more l rest) : Cuts rt text (l.token :: us) := by
  obtain ⟨hts, gap, hgap⟩ := h
  rw [Cuts, scan_of_more hnext]
  exact ⟨by rw [List.map_cons, hts], gap, hgap⟩

/-- A character that is neither blank nor a comment ends the gap. -/
theorem splitGap_token {role : Role} (h : rt.role c = role) (hblank : role ≠ .blank)
    (hcomment : role ≠ .comment) (rest : List Char) :
    Scan.splitGap rt false (c :: rest) = ([], c :: rest) := by
  simp only [Scan.splitGap, Bool.false_eq_true, if_false, h]

/-- The token that a character is by itself. -/
def Role.token? : Role → Option Token
  | .opening kind => some (.opening kind)
  | .closing kind => some (.closing kind)
  | .apostrophe => some .apostrophe
  | _ => none

theorem next_single {t : Token} (h : (rt.role c).token? = some t) (rest : List Char) :
    Scan.next rt (c :: rest) = .more ⟨[], [c], t⟩ rest := by
  cases hrole : rt.role c with
  | opening | closing | apostrophe =>
    rw [hrole] at h
    cases h
    simp only [Scan.next, splitGap_token hrole Role.noConfusion Role.noConfusion, hrole]
  | blank | comment | quote | constituent =>
    rw [hrole] at h
    contradiction

theorem next_string {text body : List Char} (hrole : rt.role c = .quote)
    (hbody : StringLiteral.splitBody? text = some (body, rest)) :
    Scan.next rt (c :: text) =
      .more ⟨[], c :: (body ++ ['"']), .string (.ofList (StringLiteral.decode body))⟩ rest := by
  simp only [Scan.next, splitGap_token hrole Role.noConfusion Role.noConfusion, hrole, hbody]

theorem next_atom {text raw : List Char} (hrole : rt.role c = .constituent)
    (hsplit : Atom.split rt (c :: text) = (raw, rest)) :
    Scan.next rt (c :: text) =
      .more ⟨[], raw, .atom (.ofList (Atom.decode raw)) (Atom.isEscaped raw)⟩ rest := by
  simp only [Scan.next, splitGap_token hrole Role.noConfusion Role.noConfusion, hrole, hsplit]

/-- A spelling is cut off whole where an atom may start. -/
theorem next_of_head {text tail : List Char} (hrole : rt.role c = .constituent)
    (h : Atom.Spelling rt text (c :: tail)) (hstop : Atom.Stops rt rest) :
    Scan.next rt (c :: tail ++ rest) =
      .more ⟨[], c :: tail, .atom (.ofList text) (Atom.isEscaped (c :: tail))⟩ rest := by
  have hnext := next_atom hrole (h.split_eq hstop)
  rwa [h.decode_eq] at hnext

theorem next_of_spelling (hescape : rt.role '\\' = .constituent) {text raw : List Char}
    (hne : text ≠ []) (h : Atom.Spelling rt text raw) (hstop : Atom.Stops rt rest) :
    Scan.next rt (raw ++ rest) =
      .more ⟨[], raw, .atom (.ofList text) (Atom.isEscaped raw)⟩ rest := by
  obtain ⟨c, tail, rfl, hc⟩ := h.exists_head hne
  have hrole : rt.role c = .constituent := by
    rcases hc with rfl | hends
    · exact hescape
    · simpa [Readtable.endsAtom] using hends
  exact next_of_head hrole h hstop

theorem Cuts.opening {k : Bracket} (h : Cuts rt rest us) (hrole : rt.role c = .opening k) :
    Cuts rt (c :: rest) (.opening k :: us) :=
  h.cons (next_single (by rw [hrole]; rfl) rest)

theorem Cuts.closing {k : Bracket} (h : Cuts rt rest us) (hrole : rt.role c = .closing k) :
    Cuts rt (c :: rest) (.closing k :: us) :=
  h.cons (next_single (by rw [hrole]; rfl) rest)

theorem Cuts.apostrophe (h : Cuts rt rest us) (hrole : rt.role c = .apostrophe) :
    Cuts rt (c :: rest) (.apostrophe :: us) :=
  h.cons (next_single (by rw [hrole]; rfl) rest)

/-! ## Gaps -/

/-- A step with more of a gap before it. -/
def Scan.Step.behind (gap : List Char) : Scan.Step → Scan.Step
  | .done (.finished g) => .done (.finished (gap ++ g))
  | .done (.openString g raw) => .done (.openString (gap ++ g) raw)
  | .more l rest => .more { l with gap := gap ++ l.gap } rest

/-- A text that has a gap before another text takes the same step behind it. -/
theorem next_behind {text gap : List Char}
    (h : Scan.splitGap rt false text =
      (gap ++ (Scan.splitGap rt false rest).1, (Scan.splitGap rt false rest).2)) :
    Scan.next rt text = (Scan.next rt rest).behind gap := by
  simp only [Scan.next, h]
  cases (Scan.splitGap rt false rest).2 with
  | nil => rfl
  | cons c after =>
    dsimp only
    cases rt.role c with
    | quote =>
      dsimp only
      cases StringLiteral.splitBody? after <;> rfl
    | _ => rfl

theorem Cuts.behind {text : List Char} (gap : List Char) (h : Cuts rt rest us)
    (hgap : Scan.splitGap rt false text =
      (gap ++ (Scan.splitGap rt false rest).1, (Scan.splitGap rt false rest).2)) :
    Cuts rt text us := by
  have hstep := next_behind hgap
  cases hnext : Scan.next rt rest with
  | done ending =>
    rw [Cuts, scan_of_done hnext] at h
    obtain ⟨rfl, g, rfl⟩ := h
    rw [hnext] at hstep
    rw [Cuts, scan_of_done hstep]
    exact ⟨rfl, gap ++ g, rfl⟩
  | more l rest' =>
    rw [Cuts, scan_of_more hnext] at h
    obtain ⟨rfl, g, hg⟩ := h
    rw [hnext] at hstep
    rw [Cuts, scan_of_more hstep]
    exact ⟨rfl, g, hg⟩

theorem Cuts.blank (h : Cuts rt rest us) (hblank : isBlank c = true) : Cuts rt (c :: rest) us := by
  refine h.behind [c] ?_
  simp only [Scan.splitGap, Bool.false_eq_true, if_false, Readtable.role_blank hblank]
  rfl

theorem Cuts.blanks {gap : List Char} (h : Cuts rt rest us) (hgap : ∀ c ∈ gap, isBlank c = true) :
    Cuts rt (gap ++ rest) us := by
  induction gap with
  | nil => exact h
  | cons c gap ih =>
    exact (ih fun d hd => hgap d (List.mem_cons_of_mem _ hd)).blank (hgap c (by simp))

theorem splitGap_comment {rest : List Char} (hline : '\n' ∉ rest) :
    Scan.splitGap rt true rest = (rest, []) := by
  induction rest with
  | nil => rfl
  | cons d rest ih =>
    rw [List.mem_cons, not_or] at hline
    have hd : (d != '\n') = true := bne_iff_ne.mpr (Ne.symm hline.1)
    rw [Scan.splitGap, if_pos rfl, hd, ih hline.2]

/-- A comment that no line ends after takes up the rest of the text. -/
theorem cuts_comment (hrole : rt.role c = .comment) {rest : List Char} (hline : '\n' ∉ rest) :
    Cuts rt (c :: rest) [] := by
  have hgap : Scan.splitGap rt false (c :: rest) = (c :: rest, []) := by
    simp only [Scan.splitGap, Bool.false_eq_true, if_false, hrole, splitGap_comment hline]
  have hdone : Scan.next rt (c :: rest) = .done (.finished (c :: rest)) := by
    simp only [Scan.next, hgap]
  rw [Cuts, scan_of_done hdone]
  exact ⟨rfl, _, rfl⟩

/-! ## Pieces -/

/-- A piece that nothing follows. -/
theorem Spells.cuts {piece : List Char} {ts : List Token} (h : Spells rt piece ts) :
    Cuts rt piece ts := by
  simpa using h [] [] trivial cuts_nil

/-- A written string is one token, whatever comes after it. -/
theorem spells_string (h : rt.role '"' = .quote) (text : List Char) :
    Spells rt (StringLiteral.encode text) [.string (.ofList text)] := by
  intro rest us _ hrest
  have hspelling := StringLiteral.spelling_body text
  have hcuts := hrest.cons (next_string h (hspelling.splitBody? rest))
  rw [hspelling.decode_eq] at hcuts
  simpa [StringLiteral.encode_eq] using hcuts

/-- A written symbol is one atom with the text of the symbol. -/
theorem spells_symbol (h : rt.role '\\' = .constituent) {text : List Char} (hne : text ≠ []) :
    Spells rt (Atom.encode rt text)
      [.atom (.ofList text) (Atom.isEscaped (Atom.encode rt text))] := by
  intro rest us hstop hrest
  exact hrest.cons (next_of_spelling h hne (Atom.spelling_encode (fun _ hends => hends) text) hstop)

/-- A character without a meaning of its own, and not the comment character. -/
def IsWordChar (rt : Readtable) (c : Char) : Prop := isReserved c = false ∧ c ≠ rt.comment

theorem IsWordChar.ne_backslash (h : IsWordChar rt c) : c ≠ '\\' := by
  intro hc
  have hreserved := h.1
  rw [hc] at hreserved
  contradiction

/-- A word with no bracket in it is one atom. -/
theorem spells_atom {word : List Char} (hword : ∀ c ∈ word, IsWordChar rt c)
    (hne : word ≠ []) (hfree : ∀ c ∈ word, rt.brackets.isDelimiter c = false) :
    Spells rt word [.atom (.ofList word) false] := by
  intro rest us hstop hrest
  have hrole : ∀ c ∈ word, rt.role c = .constituent := by
    intro c hc
    rcases Readtable.role_cases (hword c hc).1 (hword c hc).2 with ⟨hd, -⟩ | ⟨-, hrole⟩
    · rw [hfree c hc] at hd
      contradiction
    · exact hrole
  have hbare : ∀ c ∈ word, Atom.IsBare rt c := fun c hc => Atom.isBare_iff.mpr
    ⟨Readtable.endsAtom_constituent (hrole c hc), (hword c hc).ne_backslash⟩
  have hescaped : Atom.isEscaped word = false :=
    Atom.isEscaped_word fun c hc => (hword c hc).ne_backslash
  obtain ⟨c, tail, rfl⟩ := List.exists_cons_of_ne_nil hne
  have hcuts := hrest.cons (next_of_head (hrole c (by simp)) (Atom.spelling_word hbare) hstop)
  rwa [hescaped] at hcuts

theorem Spells.append {piece piece' : List Char} {ts ts' : List Token} (h : Spells rt piece ts)
    (h' : Spells rt piece' ts')
    (hstop : ∀ rest, Atom.Stops rt rest → Atom.Stops rt (piece' ++ rest)) :
    Spells rt (piece ++ piece') (ts ++ ts') := by
  intro rest us hrest hcuts
  rw [List.append_assoc, List.append_assoc]
  exact h _ _ (hstop rest hrest) (h' rest us hrest hcuts)

/-- A bracket is a token by itself, and an atom before it is over. -/
theorem spells_bracket {d : Char} (hd : IsWordChar rt d)
    (hbracket : rt.brackets.isDelimiter d = true) {piece : List Char} {ts : List Token}
    (h : Spells rt piece ts) :
    ∃ t, t.isBracket = true ∧ Spells rt (d :: piece) (t :: ts) ∧
      ∀ rest, Atom.Stops rt (d :: rest) := by
  rcases Readtable.role_cases hd.1 hd.2 with ⟨-, ⟨kind, hrole⟩ | ⟨kind, hrole⟩⟩ | ⟨hfree, -⟩
  · exact ⟨.opening kind, rfl, fun rest us hrest hcuts => (h rest us hrest hcuts).opening hrole,
      fun _ => ⟨Readtable.endsAtom_of_role hrole Role.noConfusion, hd.ne_backslash⟩⟩
  · exact ⟨.closing kind, rfl, fun rest us hrest hcuts => (h rest us hrest hcuts).closing hrole,
      fun _ => ⟨Readtable.endsAtom_of_role hrole Role.noConfusion, hd.ne_backslash⟩⟩
  · rw [hbracket] at hfree
    contradiction

/-- A word is cut at the brackets in it, and each of them is a token. -/
theorem exists_spells_word (word : List Char) (hword : ∀ c ∈ word, IsWordChar rt c) :
    ∃ ts, Spells rt word ts ∧ bracketCount ts = word.countP rt.brackets.isDelimiter := by
  match hfind : word.find? rt.brackets.isDelimiter with
  | none =>
    have hfree : ∀ c ∈ word, rt.brackets.isDelimiter c = false := by simpa using hfind
    have hcount : word.countP rt.brackets.isDelimiter = 0 :=
      List.countP_eq_zero.mpr (by simpa using hfind)
    rw [hcount]
    by_cases hne : word = []
    · exact ⟨[], fun _ _ _ h => hne ▸ h, rfl⟩
    · exact ⟨_, spells_atom hword hne hfree, rfl⟩
  | some d =>
    obtain ⟨hd, run, tail, rfl, hrun⟩ := List.find?_eq_some_iff_append.mp hfind
    have hfree : ∀ c ∈ run, rt.brackets.isDelimiter c = false := by simpa using hrun
    have hcount : run.countP rt.brackets.isDelimiter = 0 :=
      List.countP_eq_zero.mpr (by simpa using hrun)
    obtain ⟨ts, hts, hbrackets⟩ := exists_spells_word tail fun c hc => hword c (by simp [hc])
    obtain ⟨t, ht, hspells, hstop⟩ := spells_bracket (hword d (by simp)) hd hts
    have hall : bracketCount (t :: ts) = (run ++ d :: tail).countP rt.brackets.isDelimiter := by
      rw [List.countP_append, hcount, List.countP_cons_of_pos hd, ← hbrackets]
      simp [bracketCount, ht]
    by_cases hne : run = []
    · subst hne
      exact ⟨t :: ts, hspells, hall⟩
    · have hatom := spells_atom (fun c hc => hword c (by simp [hc])) hne hfree
      exact ⟨_, hatom.append hspells fun rest _ => hstop _, hall⟩
termination_by word.length
decreasing_by subst_vars; simp only [List.length_append, List.length_cons]; omega

/-- A word spells some tokens, and one atom if there is no bracket in it. -/
theorem exists_spells_bare {word : List Char} (hword : ∀ c ∈ word, IsWordChar rt c)
    (hne : word ≠ []) :
    ∃ ts, Spells rt word ts ∧ bracketCount ts = word.countP rt.brackets.isDelimiter ∧
      ((∀ c ∈ word, rt.brackets.isDelimiter c = false) → ts = [.atom (.ofList word) false]) := by
  by_cases hfree : ∀ c ∈ word, rt.brackets.isDelimiter c = false
  · refine ⟨_, spells_atom hword hne hfree, ?_, fun _ => rfl⟩
    exact (List.countP_eq_zero.mpr (by simpa using hfree)).symm
  · obtain ⟨ts, hts, hcount⟩ := exists_spells_word word hword
    exact ⟨ts, hts, hcount, fun h => absurd h hfree⟩

end SExpr
