import SExpr.Proofs.Parse.Machine

/-! # Tokens at other places

A reader never looks at the places of tokens: it only passes them on to errors. The
same tokens at other places are read as the same values, or fail with an error that
names the places that they have there. -/

namespace SExpr

variable (f : Span → Span)

/-- The same token at another place. -/
def Located.relocate (t : Located) : Located := { t with span := f t.span }

/-- The same fault at another place. -/
def ParseError.relocate (e : ParseError) : ParseError := { e with span := f e.span }

namespace Machine

def Frame.relocate : Frame → Frame
  | .bracket kind opened items => .bracket kind (f opened) items
  | .quote => .quote

def State.relocate (s : State) : State :=
  ⟨s.frames.map (Frame.relocate f), s.values, s.pending.map f⟩

/-- What a step leads to, at other places. -/
def relocateStep (r : Except ParseError State) : Except ParseError State :=
  (r.map (State.relocate f)).mapError (ParseError.relocate f)

variable {f} {o : ParseOptions}

theorem deliver_relocate (v : Value) (frames : List Frame) (values : List Value) :
    deliver v (frames.map (Frame.relocate f)) values = (deliver v frames values).relocate f := by
  induction frames generalizing v with
  | nil => rfl
  | cons frame frames ih =>
    cases frame with
    | bracket => rfl
    | quote => exact ih _

theorem enter_relocate (s : State) (place : Span) (frame : Frame) :
    (s.relocate f).enter o (f place) (frame.relocate f) =
      relocateStep f (s.enter o place frame) := by
  have hdepth : (s.relocate f).depth = s.depth := List.length_map _
  unfold State.enter
  rw [hdepth]
  split <;> rfl

theorem close_relocate (s : State) (kind : Bracket) (place : Span) :
    (s.relocate f).close kind (f place) = relocateStep f (s.close kind place) := by
  obtain ⟨frames, values, pending⟩ := s
  match frames with
  | [] | .quote :: _ => rfl
  | .bracket opened _ items :: frames =>
    by_cases hkind : opened = kind
    · simp only [State.close, State.relocate, List.map_cons, Frame.relocate, if_pos hkind,
        deliver_relocate]
      rfl
    · simp only [State.close, State.relocate, List.map_cons, Frame.relocate, if_neg hkind]
      rfl

theorem accept_relocate (s : State) (t : Located) :
    (s.relocate f).accept o (t.relocate f) = relocateStep f (s.accept o t) := by
  obtain ⟨token, span⟩ := t
  cases token with
  | string content | atom content escaped =>
    exact congrArg Except.ok (deliver_relocate _ s.frames s.values)
  | apostrophe => rfl
  | opening kind => exact enter_relocate s span (.bracket kind span [])
  | closing kind => exact close_relocate s kind span

/-- What one token does to the machine does not depend on places. -/
theorem step_relocate (s : State) (t : Located) :
    (s.relocate f).step o (t.relocate f) = relocateStep f (s.step o t) := by
  obtain ⟨frames, values, pending⟩ := s
  cases pending with
  | none => exact accept_relocate _ t
  | some apostrophe =>
    match htoken : t.token with
    | .closing kind =>
      simp only [State.step, State.relocate, Located.relocate, Option.map_some, htoken]
      rfl
    | .string _ | .atom _ _ | .apostrophe | .opening _ =>
      have ht : ∀ kind, t.token ≠ .closing kind := by simp [htoken]
      have henter := enter_relocate (f := f) (o := o) ⟨frames, values, some apostrophe⟩ apostrophe
        .quote
      rw [step_pending ht]
      refine (step_pending (t := t.relocate f) ht (f apostrophe)).trans ?_
      refine (congrArg (Except.bind · _) henter).trans ?_
      cases State.enter o ⟨frames, values, some apostrophe⟩ apostrophe .quote with
      | error e => rfl
      | ok s => exact accept_relocate s t

theorem innermost?_relocate (frames : List Frame) :
    innermost? (frames.map (Frame.relocate f)) =
      (innermost? frames).map fun p => (p.1, f p.2) := by
  induction frames with
  | nil => rfl
  | cons frame frames ih =>
    cases frame with
    | bracket => rfl
    | quote => exact ih

theorem finish_relocate (s : State) (openString : Option Span) :
    (s.relocate f).finish (openString.map f) =
      (s.finish openString).mapError (ParseError.relocate f) := by
  obtain ⟨frames, values, pending⟩ := s
  cases openString with
  | some place => rfl
  | none =>
    cases pending with
    | some apostrophe => rfl
    | none =>
      simp only [State.finish, State.relocate, Option.map_none, innermost?_relocate]
      cases innermost? frames <;> rfl

/-- A whole run comes to the same. -/
theorem run_relocate (s : State) (openString : Option Span) (ts : List Located) :
    (s.relocate f).run o (openString.map f) (ts.map (Located.relocate f)) =
      (s.run o openString ts).mapError (ParseError.relocate f) := by
  induction ts generalizing s with
  | nil => exact finish_relocate s openString
  | cons t ts ih =>
    rw [List.map_cons, State.run, State.run, step_relocate]
    cases s.step o t with
    | error e => rfl
    | ok s' => exact ih s'

end Machine

namespace Reader

theorem program_eq_run (o : ParseOptions) (openString : Option Span) (ts : List Located) :
    program o openString ts = Machine.State.start.run o openString ts := by
  rw [Machine.State.start, Machine.run_program]
  cases program o openString ts <;> rfl

/-- Places mean nothing to the reader either, since it does what the machine does. -/
theorem program_relocate {f : Span → Span} (o : ParseOptions) (openString : Option Span)
    (ts : List Located) :
    program o (openString.map f) (ts.map (Located.relocate f)) =
      (program o openString ts).mapError (ParseError.relocate f) := by
  rw [program_eq_run, program_eq_run]
  exact Machine.run_relocate .start openString ts

/-- The same tokens are read as the same values or with the same fault, wherever they
are. -/
theorem program_fault_eq (o : ParseOptions) {ts us : List Located}
    (h : ts.map Located.token = us.map Located.token) :
    (program o none ts).mapError ParseError.fault =
      (program o none us).mapError ParseError.fault := by
  have hforget : ∀ r : Except ParseError (List Value),
      (r.mapError (ParseError.relocate fun _ => default)).mapError ParseError.fault =
        r.mapError ParseError.fault := by
    intro r
    cases r <;> rfl
  have hsame : ts.map (Located.relocate fun _ => default) =
      us.map (Located.relocate fun _ => default) := by
    have hplaced := congrArg (List.map fun token => (⟨token, default⟩ : Located)) h
    rwa [List.map_map, List.map_map] at hplaced
  rw [← hforget, ← hforget (program o none us), ← program_relocate, ← program_relocate, hsame]

end Reader
end SExpr
