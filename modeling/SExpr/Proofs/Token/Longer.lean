import SExpr.Proofs.Concat

/-! # Tokens of longer texts

What is appended to a text leaves its tokens as they are, but for an atom at the very end:
this may go on, and is then another atom. Behind a newline not even that happens, unless
the atom ends in a backslash that takes the newline. -/

namespace SExpr

variable {rt : Readtable}

/-- The same tokens, but for an atom at the end that may have become another one. -/
inductive Alters : List Located → List Located → Prop
  | refl (ts : List Located) : Alters ts ts
  | atom (ts : List Located) {t t' : Located} : t.token.isAtom = true → t'.token.isAtom = true →
      Alters (ts ++ [t]) (ts ++ [t'])

theorem Alters.cons {ts us : List Located} (h : Alters ts us) (t : Located) :
    Alters (t :: ts) (t :: us) := by
  cases h with
  | refl => exact .refl _
  | atom ts ht ht' => exact .atom (t :: ts) ht ht'

/-! ## One lexeme -/

/-- A backslash without a character takes the one that is appended. -/
theorem Atom.split_of_dangles (text : List Char) (h : dangles (split rt text).1 = true) (c : Char)
    {rest : List Char} (hstop : Stops rt rest) :
    split rt ((split rt text).1 ++ c :: rest) = ((split rt text).1 ++ [c], rest) := by
  induction text using escape_induction with
  | nil => contradiction
  | lone =>
    change split rt ('\\' :: c :: rest) = (['\\', c], rest)
    rw [split_escape, split_stops hstop]
  | escape d tail ih =>
    rw [split_escape] at h ⊢
    rw [List.cons_append, List.cons_append, split_escape, ih h]
    rfl
  | plain d tail hescape ih =>
    cases hends : rt.endsAtom d with
    | true =>
      have hstops : Stops rt (d :: tail) := ⟨hends, hescape⟩
      rw [split_stops hstops] at h
      contradiction
    | false =>
      rw [split_constituent hends hescape] at h ⊢
      rw [List.cons_append, split_constituent hends hescape,
        ih ((dangles_constituent hescape _).symm.trans h)]
      rfl

section
variable {text rest : List Char} {l : Lexeme} (h : Scan.next rt text = .more l rest)
include h

/-- An atom at the end of a text is an atom in every longer text. -/
theorem next_append_atom (hatom : l.token.isAtom = true) {more raw rest' : List Char}
    (hsplit : Atom.split rt (l.raw ++ more) = (raw, rest')) :
    ∃ l', l'.token.isAtom = true ∧ Scan.next rt (l.gap ++ l.raw ++ more) = .more l' rest' := by
  obtain ⟨c, tail, hrole, hraw, -⟩ := split_of_next h hatom
  rw [hraw, List.cons_append] at hsplit
  refine ⟨⟨l.gap ++ [], raw, .atom (.ofList (Atom.decode raw)) (Atom.isEscaped raw)⟩, rfl, ?_⟩
  rw [List.append_assoc, (next_cases h).1.next, hraw, List.cons_append, next_atom hrole hsplit]
  rfl

/-- A lexeme is cut off a longer text as well, if it is not an atom at the end. -/
theorem next_append_more (hend : l.token.isAtom = true → rest ≠ []) (more : List Char) :
    Scan.next rt (text ++ more) = .more l (rest ++ more) := by
  rw [Scan.next_eq_append h, List.append_assoc]
  refine next_append h (fun hatom => ?_) fun hdangles => ?_
  · have hstops := stops_of_next h hatom
    obtain ⟨c, tail, rfl⟩ := List.exists_cons_of_ne_nil (hend hatom)
    exact hstops
  · exact absurd (eq_nil_of_dangles h hdangles) (hend (Bool.and_eq_true_iff.mp hdangles).1)

end

/-! ## All tokens -/

/-- The tokens of a text are the first tokens of every longer one, but for an atom at the
end. -/
theorem exists_tokens_append (rt : Readtable) (text more : List Char) (m : Mark) :
    ∃ ts us, Alters ((scan rt text).locatedFrom m).tokens ts ∧
      ((scan rt (text ++ more)).locatedFrom m).tokens = ts ++ us := by
  cases hnext : Scan.next rt text with
  | done ending =>
    rw [scan_of_done hnext]
    cases ending <;> exact ⟨[], _, .refl [], rfl⟩
  | more l rest =>
    have hlt := Scan.length_lt_of_next hnext
    rw [locatedFrom_of_more hnext]
    by_cases hend : l.token.isAtom = true → rest ≠ []
    · obtain ⟨ts, us, halters, htokens⟩ :=
        exists_tokens_append rt rest more (l.located m).span.last
      refine ⟨l.located m :: ts, us, halters.cons _, ?_⟩
      rw [locatedFrom_of_more (next_append_more hnext hend more)]
      exact congrArg (l.located m :: ·) htokens
    · obtain ⟨hatom, hrest⟩ := Classical.not_imp.mp hend
      obtain rfl := not_not.mp hrest
      obtain ⟨l', hatom', hnext'⟩ := next_append_atom hnext hatom
        (Prod.eta (Atom.split rt (l.raw ++ more))).symm
      rw [scan_nil]
      have hall := locatedFrom_of_more hnext' m
      rw [← List.append_nil (l.gap ++ l.raw), ← Scan.next_eq_append hnext] at hall
      exact ⟨_, _, .atom [] hatom hatom', congrArg TokenStream.tokens hall⟩
termination_by text.length

/-- Behind a newline the tokens of a text are followed by those of what comes next, where
an atom is over: a newline ends an atom, or is taken by a backslash at its end. -/
theorem exists_locatedFrom_newline (text : List Char) {after : List Char}
    (hafter : Atom.Stops rt after) (m : Mark)
    (hopen : ((scan rt text).locatedFrom m).openString = none) :
    ∃ ts m', Alters ((scan rt text).locatedFrom m).tokens ts ∧
      (scan rt (text ++ '\n' :: after)).locatedFrom m =
        ((scan rt after).locatedFrom m').prepend ts := by
  cases hnext : Scan.next rt text with
  | done ending =>
    rw [scan_of_done hnext] at hopen ⊢
    cases ending with
    | openString gap raw => contradiction
    | finished gap =>
      obtain ⟨hgap, rfl⟩ := isGap_of_finished hnext
      have hbehind := locatedFrom_behind (hgap.next after) m
      rw [List.append_assoc, List.singleton_append] at hbehind
      exact ⟨[], _, .refl [], hbehind⟩
  | more l rest =>
    have hlt := Scan.length_lt_of_next hnext
    rw [locatedFrom_of_more hnext] at hopen ⊢
    by_cases hdangles : l.dangles = true
    · obtain ⟨hatom, hraw⟩ := Bool.and_eq_true_iff.mp hdangles
      obtain rfl := eq_nil_of_dangles hnext hdangles
      obtain ⟨-, -, -, -, -, source, hsplit⟩ := split_of_next hnext hatom
      have hlast : Atom.dangles (Atom.split rt source).1 = true := by rwa [hsplit]
      have htakes := Atom.split_of_dangles source hlast '\n' hafter
      rw [hsplit] at htakes
      obtain ⟨l', hatom', hnext'⟩ := next_append_atom hnext hatom htakes
      rw [scan_nil]
      have hall := locatedFrom_of_more hnext' m
      rw [← List.append_nil (l.gap ++ l.raw), ← Scan.next_eq_append hnext] at hall
      exact ⟨_, _, .atom [] hatom hatom', hall⟩
    · have hstop : l.token.isAtom = true → Atom.Stops rt (rest ++ '\n' :: after) :=
        fun hatom => (stops_of_next hnext hatom).append (stops_newline after)
      have hfirst := next_append hnext hstop fun h => absurd h hdangles
      rw [← List.append_assoc, ← Scan.next_eq_append hnext] at hfirst
      obtain ⟨ts, m', halters, htokens⟩ :=
        exists_locatedFrom_newline rest hafter (l.located m).span.last hopen
      refine ⟨l.located m :: ts, m', halters.cons _, ?_⟩
      rw [locatedFrom_of_more hfirst, htokens]
      rfl
termination_by text.length

/-- A text that is cut into tokens is so wherever it begins. -/
theorem Cuts.locatedFrom {text : List Char} {ts : List Token} (h : Cuts rt text ts) (m : Mark) :
    ((scan rt text).locatedFrom m).tokens.map Located.token = ts ∧
      ((scan rt text).locatedFrom m).openString = none := by
  obtain ⟨hts, gap, hgap⟩ := h
  unfold Scan.locatedFrom
  rw [hgap]
  exact ⟨(Scan.map_token_place m _).trans hts, rfl⟩

end SExpr
