import SExpr.Proofs.Parse.Steps
import SExpr.Proofs.Token.Longer
import SExpr.Proofs.Token.Slice

/-! # Texts that go on

A reader that has met a wrong closer, or a bracket or apostrophe too many, says the same
of every longer text. A text whose only fault is that brackets are left open becomes one
that is read if they are closed, the innermost first, on a new line. -/

namespace SExpr

/-- Faults that nothing which follows can mend. -/
def Fault.isFinal : Fault → Bool
  | .unexpectedCloser _ | .nestingTooDeep _ => true
  | _ => false

/-- The closers of brackets that are open, in the order in which they are due. -/
def closersOf (opened : List (Bracket × Span)) : String := .ofList (opened.map (·.1.closer))

/-! ## What an atom at the end hides -/

theorem Located.apostrophe?_of_isAtom {t : Located} (h : t.token.isAtom = true) :
    t.apostrophe? = none := by
  obtain ⟨token, place⟩ := t
  cases token with
  | atom => rfl
  | opening | closing | apostrophe | string => contradiction

theorem trackBracket_of_isAtom {t : Located} (h : t.token.isAtom = true)
    (opened : List (Bracket × Span)) : trackBracket opened t = opened := by
  obtain ⟨token, place⟩ := t
  cases token with
  | atom => rfl
  | opening | closing | apostrophe | string => contradiction

namespace Alters

variable {ts us : List Located}

theorem openBrackets_eq (h : Alters ts us) : openBrackets us = openBrackets ts := by
  cases h with
  | refl => rfl
  | atom _ ht ht' =>
    rw [openBrackets_concat, openBrackets_concat, trackBracket_of_isAtom ht,
      trackBracket_of_isAtom ht']

theorem pending_eq (h : Alters ts us) :
    us.getLast?.bind Located.apostrophe? = ts.getLast?.bind Located.apostrophe? := by
  cases h with
  | refl => rfl
  | atom _ ht ht' =>
    rw [List.getLast?_concat, List.getLast?_concat, Option.bind_some, Option.bind_some,
      Located.apostrophe?_of_isAtom ht, Located.apostrophe?_of_isAtom ht']

end Alters

namespace Machine

variable {o : ParseOptions} {openString : Option Span} {s s' : State} {t t' : Located}
variable {ts us : List Located} {e : ParseError}

/-- An atom is a value for the state in which it is looked at. -/
theorem step_of_isAtom (h : t.token.isAtom = true) (s : State) :
    ∃ v, s.step o t = (s.ready o).map fun s => deliver v s.frames s.values := by
  obtain ⟨token, place⟩ := t
  cases token with
  | atom content escaped =>
    refine ⟨Reader.atom o content escaped, ?_⟩
    rw [step_eq_ready fun _ => Token.noConfusion]
    cases s.ready o <;> rfl
  | opening | closing | apostrophe | string => contradiction

theorem step_error_of_isAtom (ht : t.token.isAtom = true) (ht' : t'.token.isAtom = true)
    (h : s.step o t = .error e) : s.step o t' = .error e := by
  obtain ⟨v, hv⟩ := step_of_isAtom (o := o) ht s
  obtain ⟨v', hv'⟩ := step_of_isAtom (o := o) ht' s
  rw [hv] at h
  rw [hv']
  cases hready : s.ready o with
  | error e' =>
    rw [hready] at h
    cases h
    rfl
  | ok ready =>
    rw [hready] at h
    contradiction

theorem step_ok_of_isAtom (ht : t.token.isAtom = true) (ht' : t'.token.isAtom = true)
    (h : s.step o t = .ok s') : ∃ s'', s.step o t' = .ok s'' := by
  cases hstep : s.step o t' with
  | error e => cases h.symm.trans (step_error_of_isAtom ht' ht hstep)
  | ok s'' => exact ⟨s'', rfl⟩

theorem steps_error_of_alters (halters : Alters ts us) (h : s.steps o ts = .error e) :
    s.steps o us = .error e := by
  cases halters with
  | refl => exact h
  | atom _ ht ht' =>
    rw [steps_concat] at h ⊢
    rcases bind_eq_error_iff.mp h with hfirst | ⟨s', hfirst, hlast⟩
    · rw [hfirst]
      rfl
    · rw [hfirst]
      exact step_error_of_isAtom ht ht' hlast

theorem steps_ok_of_alters (halters : Alters ts us) (h : s.steps o ts = .ok s') :
    ∃ s'', s.steps o us = .ok s'' := by
  cases halters with
  | refl => exact ⟨s', h⟩
  | atom _ ht ht' =>
    rw [steps_concat] at h ⊢
    obtain ⟨s₁, hfirst, hlast⟩ := bind_eq_ok_iff.mp h
    rw [hfirst]
    exact step_ok_of_isAtom ht ht' hlast

/-! ## Runs -/

/-- Only a step fails for good: the end of a text can always be put off. -/
theorem steps_error_of_isFinal (h : s.run o openString ts = .error e)
    (hfinal : e.fault.isFinal = true) : s.steps o ts = .error e := by
  rw [run_eq] at h
  rcases bind_eq_error_iff.mp h with hsteps | ⟨s', -, hfinish⟩
  · exact hsteps
  · rcases finish_eq_error hfinish with
      ⟨-, hfault⟩ | ⟨-, -, hfault⟩ | ⟨-, -, kind, -, -, hfault⟩ <;>
    · rw [hfault] at hfinal
      contradiction

/-- A failed step is not made good by what comes after it. -/
theorem run_error_of_steps (h : s.steps o ts = .error e) (us : List Located) :
    s.run o openString (ts ++ us) = .error e := by
  rw [run_append, h]
  rfl

/-- A bracket is found to be open only at the end. -/
theorem exists_steps_of_unterminated {opener : Char} (h : s.run o openString ts = .error e)
    (hfault : e.fault = .unterminatedBracket opener) :
    openString = none ∧ ∃ s', s.steps o ts = .ok s' ∧ s'.pending = none ∧
      ∃ kind outer, s'.opened = (kind, e.span) :: outer ∧ kind.opener = opener := by
  rw [run_eq] at h
  rcases bind_eq_error_iff.mp h with hsteps | ⟨s', hsteps, hfinish⟩
  · obtain ⟨before, t, after, s', -, -, hstep⟩ := steps_eq_error hsteps
    rcases step_eq_error hstep with ⟨-, hother | hother⟩ | ⟨kind, -, hother⟩ | ⟨kind, -, hother⟩ <;>
      cases hfault.symm.trans hother
  · rcases finish_eq_error hfinish with ⟨-, hother⟩ | ⟨-, -, hother⟩ |
      ⟨hopen, hpending, kind, outer, hopened, hother⟩
    · cases hfault.symm.trans hother
    · cases hfault.symm.trans hother
    · cases hfault.symm.trans hother
      exact ⟨hopen, s', hsteps, hpending, kind, outer, hopened, rfl⟩

/-- Closers of the brackets that are open, the innermost first, complete everything. -/
theorem exists_run_closers {s : State} {ts : List Located} (hsettled : s.Settled)
    (hpending : s.pending = none)
    (hts : ts.map Located.token = s.opened.map fun p => .closing p.1) :
    ∃ values, s.run o none ts = .ok values := by
  obtain ⟨frames, values, pending⟩ := s
  obtain rfl : pending = none := hpending
  match frames with
  | [] =>
    obtain rfl := List.map_eq_nil_iff.mp hts
    exact ⟨values, rfl⟩
  | .quote :: frames => exact absurd rfl (hsettled rfl frames)
  | .bracket kind opened items :: frames =>
    obtain ⟨t, ts', rfl, ht, hts'⟩ := List.map_eq_cons_iff.mp hts
    have hclose : State.accept o ⟨.bracket kind opened items :: frames, values, none⟩ t =
        .ok (deliver (.sequence kind items) frames values) := by
      simp only [State.accept, ht, State.close, if_true]
    rw [run_cons, hclose]
    have hopened := opened_deliver (.sequence kind items) frames values
    exact exists_run_closers (settled_deliver _ _ _) (pending_deliver _ _ _)
      (by rw [hopened]; exact hts')
termination_by ts.length

end Machine

/-! ## Texts -/

/-- The closers of brackets that were opened are cut into tokens. -/
theorem cuts_closersOf {rt : Readtable} (hwell : rt.brackets.WellFormed)
    (hcomment : rt.brackets.isDelimiter rt.comment = false) {opened : List (Bracket × Span)}
    (hopened : ∀ p ∈ opened, p.1 ∈ rt.brackets.kinds) :
    Atom.Stops rt (opened.map (·.1.closer)) ∧
      Cuts rt (opened.map (·.1.closer)) (opened.map fun p => .closing p.1) := by
  induction opened with
  | nil => exact ⟨trivial, cuts_nil⟩
  | cons p outer ih =>
    obtain ⟨-, hcuts⟩ := ih fun q hq => hopened q (List.mem_cons_of_mem _ hq)
    have hkind := hopened p List.mem_cons_self
    have hdelimiter : rt.brackets.isDelimiter p.1.closer = true :=
      BracketTable.isDelimiter_iff.mpr ⟨p.1, hkind, by simp⟩
    have hne : p.1.closer ≠ rt.comment := by
      intro he
      rw [he, hcomment] at hdelimiter
      contradiction
    have hrole := Readtable.role_closer hwell hkind hne
    have hreserved : isReserved p.1.closer = false :=
      hwell.not_reserved p.1 hkind p.1.closer (by simp)
    have hescape : p.1.closer ≠ '\\' := by
      intro he
      rw [he] at hreserved
      contradiction
    exact ⟨⟨Readtable.endsAtom_of_role hrole Role.noConfusion, hescape⟩, hcuts.closing hrole⟩

theorem toList_closed (text : String) (opened : List (Bracket × Span)) :
    (text ++ "\n" ++ closersOf opened).toList =
      text.toList ++ '\n' :: opened.map (·.1.closer) := by
  simp [closersOf]

section
variable {t : BracketTable} {o : ParseOptions} {text : String} {e : ParseError}
variable (h : parse t o text = .error e)
include h

/-- The token that was refused is refused in every longer text. -/
theorem parse_append_of_isFinal (hfinal : e.fault.isFinal = true) (more : String) :
    parse t o (text ++ more) = .error e := by
  unfold parse at h ⊢
  rw [Reader.program_eq_run] at h ⊢
  have hsteps := Machine.steps_error_of_isFinal h hfinal
  obtain ⟨ts, us, halters, htokens⟩ :=
    exists_tokens_append (o.readtable t) text.toList more.toList .start
  have hall : (tokenize (o.readtable t) (text ++ more)).tokens = ts ++ us := by
    rw [tokenize, String.toList_append]
    exact htokens
  rw [hall]
  exact Machine.run_error_of_steps (Machine.steps_error_of_alters halters hsteps) us

/-- What is open behind the last token is closed by its closers. -/
theorem exists_parse_closed (ht : t.Reachable) (hcomment : t.isDelimiter o.comment = false)
    {opener : Char} (hfault : e.fault = .unterminatedBracket opener) :
    ∃ kind outer values,
      openBrackets (tokenize (o.readtable t) text).tokens = (kind, e.span) :: outer ∧
      kind.opener = opener ∧
      parse t o (text ++ "\n" ++ closersOf ((kind, e.span) :: outer)) = .ok values := by
  unfold parse at h
  rw [Reader.program_eq_run] at h
  obtain ⟨hopen, s, hsteps, hpending, kind, outer, hopened, hkind⟩ :=
    Machine.exists_steps_of_unterminated h hfault
  have hbehind := Machine.behind_of_steps hsteps
  have hkinds : ∀ p ∈ s.opened, p.1 ∈ (o.readtable t).brackets.kinds := by
    intro p hp
    rw [hbehind.opened] at hp
    exact (exists_names_of_char? (mem_of_mem_openBrackets hp) rfl).2 p.1 rfl
  obtain ⟨hstops, hcuts⟩ := cuts_closersOf ht.wellFormed hcomment hkinds
  obtain ⟨ts, m, halters, hstream⟩ :=
    exists_locatedFrom_newline text.toList hstops .start hopen
  obtain ⟨hclosers, hfinished⟩ := hcuts.locatedFrom m
  -- the longer text has the same brackets open before its closers
  obtain ⟨s', hsteps'⟩ := Machine.steps_ok_of_alters halters hsteps
  have hbehind' := Machine.behind_of_steps hsteps'
  have hopened' : s'.opened = s.opened :=
    hbehind'.opened.trans (halters.openBrackets_eq.trans hbehind.opened.symm)
  have hpending' : s'.pending = none :=
    hbehind'.pending.trans (halters.pending_eq.trans (hbehind.pending.symm.trans hpending))
  obtain ⟨values, hvalues⟩ := Machine.exists_run_closers (o := o) hbehind'.settled hpending'
    (hclosers.trans (congrArg _ hopened'.symm))
  refine ⟨kind, outer, values, hbehind.opened.symm.trans hopened, hkind, ?_⟩
  rw [← toList_closed, Scan.locatedFrom_start] at hstream
  rw [← hopened]
  unfold parse tokenize
  rw [Reader.program_eq_run, hstream]
  simp only [TokenStream.prepend, hfinished]
  rw [Machine.run_append, hsteps']
  exact hvalues

end

/-- A wrong closer, or a bracket or apostrophe too many, is reported of every longer text
as well. If a bracket is left open, closing all that are open, the innermost first, on a
new line makes a text that is read, and the first closer is that of the reported bracket. -/
theorem parse_longer {t : BracketTable} (ht : t.Reachable) {o : ParseOptions} {text : String}
    {e : ParseError} (h : parse t o text = .error e) :
    (e.fault.isFinal = true → ∀ more, parse t o (text ++ more) = .error e) ∧
    ∀ opener, e.fault = .unterminatedBracket opener → t.isDelimiter o.comment = false →
      ∃ kind outer values,
        openBrackets (tokenize (o.readtable t) text).tokens = (kind, e.span) :: outer ∧
        kind.opener = opener ∧
        parse t o (text ++ "\n" ++ closersOf ((kind, e.span) :: outer)) = .ok values :=
  ⟨fun hfinal more => parse_append_of_isFinal h hfinal more,
    fun _ hfault hcomment => exists_parse_closed h ht hcomment hfault⟩

/-- An apostrophe too many stays one when the atom behind it goes on, and a backslash at
the end takes the newline before the closers. -/
theorem parse_longer_backslash :
    parse .default { maxDepth := 0 } "'a\\" = .error ⟨.nestingTooDeep 0, ⟨⟨0, 0⟩, ⟨1, 1⟩⟩⟩ ∧
    parse .default { maxDepth := 0 } ("'a\\" ++ ")") =
      .error ⟨.nestingTooDeep 0, ⟨⟨0, 0⟩, ⟨1, 1⟩⟩⟩ ∧
    parse .default {} "('[a\\" = .error ⟨.unterminatedBracket '[', ⟨⟨2, 2⟩, ⟨3, 3⟩⟩⟩ ∧
    ∃ values, parse .default {} ("('[a\\" ++ "\n" ++ "])") = .ok values := by
  have hdeep : parse .default { maxDepth := 0 } "'a\\" =
      .error ⟨.nestingTooDeep 0, ⟨⟨0, 0⟩, ⟨1, 1⟩⟩⟩ := by
    have htokens : tokenize ⟨.default, ';'⟩ "'a\\" =
        ⟨[⟨.apostrophe, ⟨⟨0, 0⟩, ⟨1, 1⟩⟩⟩, ⟨.atom "a\\" true, ⟨⟨1, 1⟩, ⟨3, 3⟩⟩⟩], none⟩ := by
      decide +kernel
    rw [parse, ParseOptions.readtable, htokens, Reader.program_eq_run]
    rfl
  have htokens : tokenize ⟨.default, ';'⟩ "('[a\\" =
      ⟨[⟨.opening .parens, ⟨⟨0, 0⟩, ⟨1, 1⟩⟩⟩, ⟨.apostrophe, ⟨⟨1, 1⟩, ⟨2, 2⟩⟩⟩,
        ⟨.opening .square, ⟨⟨2, 2⟩, ⟨3, 3⟩⟩⟩, ⟨.atom "a\\" true, ⟨⟨3, 3⟩, ⟨5, 5⟩⟩⟩], none⟩ := by
    decide +kernel
  have hopen : parse .default {} "('[a\\" =
      .error ⟨.unterminatedBracket '[', ⟨⟨2, 2⟩, ⟨3, 3⟩⟩⟩ := by
    rw [parse, ParseOptions.readtable, htokens, Reader.program_eq_run]
    rfl
  have hdefault : BracketTable.default.Reachable := ⟨[], rfl⟩
  obtain ⟨kind, outer, values, hopened, -, hvalues⟩ :=
    (parse_longer hdefault hopen).2 '[' rfl (by decide)
  rw [ParseOptions.readtable, htokens] at hopened
  rw [← hopened] at hvalues
  exact ⟨hdeep, (parse_longer hdefault hdeep).1 rfl ")", hopen, values, hvalues⟩

end SExpr
