import Mathlib.Data.List.Induction
import SExpr.Proofs.Except
import SExpr.Proofs.Parse.Relocate

/-! # What a run has seen

A run of the machine takes tokens one after another and then ends. Behind some tokens
the machine shows which brackets they leave open and whether an apostrophe was the last
of them: `State.Behind` says so, and every step keeps it. A run fails at the first token
that is refused, whatever comes after that token, or at the end. -/

namespace SExpr

/-- The brackets that are open behind the token, given those before it: the innermost
comes first, each with the place where it was opened. -/
def trackBracket (opened : List (Bracket × Span)) (t : Located) : List (Bracket × Span) :=
  match t.token with
  | .opening kind => (kind, t.span) :: opened
  | .closing _ => opened.tail
  | _ => opened

/-- The brackets that the tokens leave open, the innermost first. -/
def openBrackets (ts : List Located) : List (Bracket × Span) := ts.foldl trackBracket []

@[simp]
theorem openBrackets_concat (ts : List Located) (t : Located) :
    openBrackets (ts ++ [t]) = trackBracket (openBrackets ts) t := by
  rw [openBrackets, List.foldl_append]
  rfl

/-- What is open was opened by one of the tokens. -/
theorem mem_of_mem_openBrackets {ts : List Located} {p : Bracket × Span}
    (h : p ∈ openBrackets ts) : ⟨.opening p.1, p.2⟩ ∈ ts := by
  induction ts using List.reverseRecOn with
  | nil => contradiction
  | append_singleton ts t ih =>
    obtain ⟨token, place⟩ := t
    rw [openBrackets_concat] at h
    rw [List.mem_append, List.mem_singleton]
    cases token with
    | opening kind =>
      rcases List.mem_cons.mp h with rfl | h
      · exact .inr rfl
      · exact .inl (ih h)
    | closing => exact .inl (ih (List.mem_of_mem_tail h))
    | apostrophe | string | atom => exact .inl (ih h)

/-- The apostrophe that the token is. -/
def Located.apostrophe? (t : Located) : Option Span :=
  match t.token with
  | .apostrophe => some t.span
  | _ => none

theorem Located.eq_of_apostrophe? {t : Located} {place : Span} (h : t.apostrophe? = some place) :
    t = ⟨.apostrophe, place⟩ := by
  obtain ⟨token, span⟩ := t
  cases token with
  | apostrophe =>
    cases h
    rfl
  | opening | closing | string | atom => contradiction

namespace Machine

variable {o : ParseOptions} {openString : Option Span} {s s' : State} {t : Located}
variable {ts : List Located} {e : ParseError}

/-- The bracket of a frame; a quote has none. -/
def Frame.bracket? : Frame → Option (Bracket × Span)
  | .bracket kind opened _ => some (kind, opened)
  | .quote => none

/-- The brackets that are open, the innermost first. -/
def State.opened (s : State) : List (Bracket × Span) := s.frames.filterMap Frame.bracket?

theorem innermost?_eq (frames : List Frame) :
    innermost? frames = (frames.filterMap Frame.bracket?).head? := by
  induction frames with
  | nil => rfl
  | cons frame frames ih =>
    cases frame with
    | bracket => rfl
    | quote => exact ih

/-- A quote is innermost only until its expression has begun. -/
def State.Settled (s : State) : Prop := s.pending = none → ∀ frames, s.frames ≠ .quote :: frames

/-! ## One step -/

/-- The state in which a token is looked at: after an apostrophe it is in the quote. -/
def State.ready (o : ParseOptions) (s : State) : Except ParseError State :=
  match s.pending with
  | none => .ok s
  | some apostrophe => s.enter o apostrophe .quote

theorem step_eq_ready (ht : ∀ kind, t.token ≠ .closing kind) :
    s.step o t = s.ready o >>= fun s => s.accept o t := by
  obtain ⟨frames, values, pending⟩ := s
  cases pending with
  | none => rfl
  | some apostrophe => exact step_pending ht apostrophe

theorem enter_eq_ok {place : Span} {frame : Frame} (h : s.enter o place frame = .ok s') :
    s' = { s with frames := frame :: s.frames, pending := none } := by
  unfold State.enter at h
  split at h
  · contradiction
  · exact (Except.ok.inj h).symm

theorem eq_of_enter_eq_error {place : Span} {frame : Frame} (h : s.enter o place frame = .error e) :
    e = ⟨.nestingTooDeep o.maxDepth, place⟩ := by
  unfold State.enter at h
  split at h
  · exact (Except.error.inj h).symm
  · contradiction

theorem opened_of_ready (h : s.ready o = .ok s') : s'.opened = s.opened := by
  obtain ⟨frames, values, pending⟩ := s
  cases pending with
  | none =>
    cases h
    rfl
  | some apostrophe =>
    rw [enter_eq_ok h]
    rfl

theorem opened_deliver (v : Value) (frames : List Frame) (values : List Value) :
    (deliver v frames values).opened = frames.filterMap Frame.bracket? := by
  induction frames generalizing v with
  | nil => rfl
  | cons frame frames ih =>
    cases frame with
    | bracket => rfl
    | quote => exact ih _

theorem pending_deliver (v : Value) (frames : List Frame) (values : List Value) :
    (deliver v frames values).pending = none := by
  induction frames generalizing v with
  | nil => rfl
  | cons frame frames ih =>
    cases frame with
    | bracket => rfl
    | quote => exact ih _

/-- A delivered value has completed all quotes around it. -/
theorem settled_deliver (v : Value) (frames : List Frame) (values : List Value) :
    (deliver v frames values).Settled := by
  induction frames generalizing v with
  | nil => exact fun _ _ => (List.cons_ne_nil _ _).symm
  | cons frame frames ih =>
    cases frame with
    | bracket =>
      intro _ rest h
      cases h
    | quote => exact ih _

theorem close_eq_ok {kind : Bracket} {place : Span} (h : s.close kind place = .ok s') :
    ∃ opened items frames, s.frames = .bracket kind opened items :: frames ∧
      s' = deliver (.sequence kind items) frames s.values := by
  unfold State.close at h
  split at h
  · rename_i kind' opened items frames hframes
    split at h
    · rename_i hkind
      subst hkind
      exact ⟨opened, items, frames, hframes, (Except.ok.inj h).symm⟩
    · contradiction
  · contradiction

theorem eq_of_close_eq_error {kind : Bracket} {place : Span} (h : s.close kind place = .error e) :
    e = ⟨.unexpectedCloser kind.closer, place⟩ := by
  unfold State.close at h
  split at h
  · split at h
    · contradiction
    · exact (Except.error.inj h).symm
  · exact (Except.error.inj h).symm

theorem accept_eq_ok (h : s.accept o t = .ok s') :
    s'.opened = trackBracket s.opened t ∧ s'.pending = t.apostrophe? ∧ s'.Settled := by
  obtain ⟨token, place⟩ := t
  cases token with
  | string | atom =>
    cases h
    exact ⟨opened_deliver _ _ _, pending_deliver _ _ _, settled_deliver _ _ _⟩
  | apostrophe =>
    cases h
    exact ⟨rfl, rfl, fun hnone => nomatch hnone⟩
  | opening kind =>
    rw [enter_eq_ok h]
    exact ⟨rfl, rfl, fun _ _ hframes => nomatch hframes⟩
  | closing kind =>
    obtain ⟨opened, items, frames, hframes, rfl⟩ := close_eq_ok h
    have hopened : trackBracket s.opened ⟨.closing kind, place⟩ =
        frames.filterMap Frame.bracket? := by
      rw [State.opened, hframes]
      rfl
    rw [hopened]
    exact ⟨opened_deliver _ _ _, pending_deliver _ _ _, settled_deliver _ _ _⟩

/-- What a token that is taken does to what is open. -/
theorem step_eq_ok (h : s.step o t = .ok s') :
    s'.opened = trackBracket s.opened t ∧ s'.pending = t.apostrophe? ∧ s'.Settled := by
  by_cases hclosing : ∃ kind, t.token = .closing kind
  · obtain ⟨kind, hkind⟩ := hclosing
    unfold State.step at h
    split at h
    · exact accept_eq_ok h
    · simp only [hkind] at h
      contradiction
  · rw [step_eq_ready (not_exists.mp hclosing)] at h
    obtain ⟨ready, hready, haccept⟩ := bind_eq_ok_iff.mp h
    rw [← opened_of_ready hready]
    exact accept_eq_ok haccept

/-- After an apostrophe there may be no room for a quote. -/
theorem ready_eq_error (h : s.ready o = .error e) :
    s.pending = some e.span ∧ e.fault = .nestingTooDeep o.maxDepth := by
  unfold State.ready at h
  split at h
  · contradiction
  · rename_i apostrophe hpending
    rw [eq_of_enter_eq_error h]
    exact ⟨hpending, rfl⟩

/-- Only brackets are refused by themselves. -/
theorem accept_eq_error (h : s.accept o t = .error e) :
    (∃ kind, t = ⟨.closing kind, e.span⟩ ∧ e.fault = .unexpectedCloser kind.closer) ∨
    ∃ kind, t = ⟨.opening kind, e.span⟩ ∧ e.fault = .nestingTooDeep o.maxDepth := by
  obtain ⟨token, place⟩ := t
  cases token with
  | closing kind =>
    rw [eq_of_close_eq_error h]
    exact .inl ⟨kind, rfl, rfl⟩
  | opening kind =>
    rw [eq_of_enter_eq_error h]
    exact .inr ⟨kind, rfl, rfl⟩
  | apostrophe | string | atom => contradiction

/-- What a step fails for: the token, or the apostrophe before it. -/
theorem step_eq_error (h : s.step o t = .error e) :
    (s.pending = some e.span ∧
      (e.fault = .missingQuoted ∨ e.fault = .nestingTooDeep o.maxDepth)) ∨
    (∃ kind, t = ⟨.closing kind, e.span⟩ ∧ e.fault = .unexpectedCloser kind.closer) ∨
    ∃ kind, t = ⟨.opening kind, e.span⟩ ∧ e.fault = .nestingTooDeep o.maxDepth := by
  by_cases hclosing : ∃ kind, t.token = .closing kind
  · obtain ⟨kind, hkind⟩ := hclosing
    unfold State.step at h
    split at h
    · exact .inr (accept_eq_error h)
    · rename_i apostrophe hpending
      simp only [hkind] at h
      cases h
      exact .inl ⟨hpending, .inl rfl⟩
  · rw [step_eq_ready (not_exists.mp hclosing)] at h
    rcases bind_eq_error_iff.mp h with hready | ⟨ready, -, haccept⟩
    · obtain ⟨hpending, hfault⟩ := ready_eq_error hready
      exact .inl ⟨hpending, .inr hfault⟩
    · exact .inr (accept_eq_error haccept)

/-- What a text that is over is refused for. -/
theorem finish_eq_error (h : s.finish openString = .error e) :
    openString = some e.span ∧ e.fault = .unterminatedString ∨
    openString = none ∧ s.pending = some e.span ∧ e.fault = .missingQuoted ∨
    openString = none ∧ s.pending = none ∧ ∃ kind outer, s.opened = (kind, e.span) :: outer ∧
      e.fault = .unterminatedBracket kind.opener := by
  unfold State.finish at h
  rw [innermost?_eq] at h
  split at h
  · cases h
    exact .inl ⟨rfl, rfl⟩
  · split at h
    · rename_i hpending
      cases h
      exact .inr (.inl ⟨rfl, hpending, rfl⟩)
    · rename_i hpending
      split at h
      · rename_i hopened
        cases h
        obtain ⟨outer, houter⟩ := List.head?_eq_some_iff.mp hopened
        exact .inr (.inr ⟨rfl, hpending, _, outer, houter, rfl⟩)
      · contradiction

/-! ## Steps in a row -/

/-- Takes tokens one after another, without an end. -/
def State.steps (o : ParseOptions) : State → List Located → Except ParseError State
  | s, [] => .ok s
  | s, t :: ts => do (← s.step o t).steps o ts

theorem steps_append (s : State) (ts us : List Located) :
    s.steps o (ts ++ us) = s.steps o ts >>= fun s' => s'.steps o us := by
  induction ts generalizing s with
  | nil => rfl
  | cons t ts ih =>
    rw [List.cons_append, State.steps, State.steps]
    cases s.step o t with
    | error e => rfl
    | ok s' => exact ih s'

theorem run_append (s : State) (ts us : List Located) :
    s.run o openString (ts ++ us) = s.steps o ts >>= fun s' => s'.run o openString us := by
  induction ts generalizing s with
  | nil => rfl
  | cons t ts ih =>
    rw [List.cons_append, State.run, State.steps]
    cases s.step o t with
    | error e => rfl
    | ok s' => exact ih s'

/-- A run is its steps and the end. -/
theorem run_eq (s : State) (ts : List Located) :
    s.run o openString ts = s.steps o ts >>= fun s' => s'.finish openString := by
  have hall : s.run o openString (ts ++ []) = _ := run_append s ts []
  rwa [List.append_nil] at hall

theorem steps_concat (s : State) (ts : List Located) (t : Located) :
    s.steps o (ts ++ [t]) = s.steps o ts >>= fun s' => s'.step o t := by
  rw [steps_append]
  cases s.steps o ts with
  | error e => rfl
  | ok s' =>
    change s'.step o t >>= _ = s'.step o t
    cases s'.step o t <;> rfl

/-- The steps fail at one token, behind tokens that were taken. -/
theorem steps_eq_error (h : s.steps o ts = .error e) :
    ∃ before t after s', ts = before ++ t :: after ∧ s.steps o before = .ok s' ∧
      s'.step o t = .error e := by
  induction ts generalizing s with
  | nil => contradiction
  | cons t ts ih =>
    rcases bind_eq_error_iff.mp h with hstep | ⟨s₁, hstep, hsteps⟩
    · exact ⟨[], t, ts, s, rfl, rfl, hstep⟩
    · obtain ⟨before, t', after, s', rfl, hbefore, herror⟩ := ih hsteps
      exact ⟨t :: before, t', after, s', rfl, bind_eq_ok_iff.mpr ⟨s₁, hstep, hbefore⟩, herror⟩

/-- The state shows what the tokens `ts` leave open. -/
structure State.Behind (s : State) (ts : List Located) : Prop where
  opened : s.opened = openBrackets ts
  pending : s.pending = ts.getLast?.bind Located.apostrophe?
  settled : s.Settled

theorem behind_start : State.start.Behind [] :=
  ⟨rfl, rfl, fun _ _ => (List.cons_ne_nil _ _).symm⟩

/-- A token that is taken is one more that the state has seen. -/
theorem State.Behind.step (hs : s.Behind ts) (h : s.step o t = .ok s') : s'.Behind (ts ++ [t]) := by
  obtain ⟨hopened, hpending, hsettled⟩ := step_eq_ok h
  refine ⟨?_, ?_, hsettled⟩
  · rw [hopened, hs.opened, openBrackets_concat]
  · rw [hpending, List.getLast?_concat]
    rfl

theorem behind_of_steps (h : State.start.steps o ts = .ok s) : s.Behind ts := by
  induction ts using List.reverseRecOn generalizing s with
  | nil =>
    cases h
    exact behind_start
  | append_singleton ts t ih =>
    rw [steps_concat] at h
    obtain ⟨s₀, hs₀, hstep⟩ := bind_eq_ok_iff.mp h
    exact (ih hs₀).step hstep

end Machine
end SExpr
