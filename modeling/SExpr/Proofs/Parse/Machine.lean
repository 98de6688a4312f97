import SExpr.Parse

/-! # Reading as a stack machine

A machine that looks at one token at a time, from left to right, and keeps on a
stack what is open: brackets with the items that they hold so far, and
apostrophes whose expression has begun. `parse_eq_machine` says that it reads
every text as the recursive reader does, errors and their places included.

The call stack of the reader is the stack of the machine: inside `depth`
brackets and apostrophes the machine has `depth` frames. An expression that is
read in full leaves the frames as they were, with its value delivered to them. -/

namespace SExpr.Machine

/-- What is open at a place of the text. -/
inductive Frame
  /-- A bracket of this kind, opened at `opened`, and its items so far. -/
  | bracket (kind : Bracket) (opened : Span) (items : List Value)
  /-- An apostrophe whose expression has begun. -/
  | quote

/-- The machine between two tokens. -/
structure State where
  /-- What is open, the innermost first. -/
  frames : List Frame
  /-- The expressions that are complete and in nothing else. -/
  values : List Value
  /-- The apostrophe right before the next token. -/
  pending : Option Span := none

/-- Before the first token. -/
def State.start : State := ⟨[], [], none⟩

/-- The number of brackets and apostrophes around the next token. -/
def State.depth (s : State) : Nat := s.frames.length

/-- A complete expression completes the apostrophes right around it and is then
an item of the bracket around those, or of the text. -/
def deliver (v : Value) : List Frame → List Value → State
  | [], values => ⟨[], values ++ [v], none⟩
  | .quote :: frames, values => deliver (.quoted v) frames values
  | .bracket kind opened items :: frames, values =>
    ⟨.bracket kind opened (items ++ [v]) :: frames, values, none⟩

/-- Opens a frame for the token at `place`, if it may be enclosed by those that
are open. -/
def State.enter (o : ParseOptions) (s : State) (place : Span) (frame : Frame) :
    Except ParseError State :=
  if s.depth = o.maxDepth then .error ⟨.nestingTooDeep o.maxDepth, place⟩
  else .ok { s with frames := frame :: s.frames, pending := none }

/-- A closer completes the innermost bracket if the kinds agree. -/
def State.close (s : State) (kind : Bracket) (place : Span) : Except ParseError State :=
  match s.frames with
  | .bracket opened _ items :: frames =>
    if opened = kind then .ok (deliver (.sequence kind items) frames s.values)
    else .error ⟨.unexpectedCloser kind.closer, place⟩
  | _ => .error ⟨.unexpectedCloser kind.closer, place⟩

/-- Takes a token that no apostrophe waits for. -/
def State.accept (o : ParseOptions) (s : State) (t : Located) : Except ParseError State :=
  match t.token with
  | .string content => .ok (deliver (.text content) s.frames s.values)
  | .atom content escaped => .ok (deliver (Reader.atom o content escaped) s.frames s.values)
  | .apostrophe => .ok { s with pending := some t.span }
  | .opening kind => s.enter o t.span (.bracket kind t.span [])
  | .closing kind => s.close kind t.span

/-- Takes a token. After an apostrophe a closer leaves nothing to quote, and any
other token enters the quote before it is looked at itself. -/
def State.step (o : ParseOptions) (s : State) (t : Located) : Except ParseError State :=
  match s.pending with
  | none => s.accept o t
  | some apostrophe =>
    match t.token with
    | .closing _ => .error ⟨.missingQuoted, apostrophe⟩
    | _ => do (← s.enter o apostrophe .quote).accept o t

/-- The innermost bracket that is open. -/
def innermost? (frames : List Frame) : Option (Bracket × Span) :=
  frames.findSome? fun
    | .bracket kind opened _ => some (kind, opened)
    | .quote => none

/-- The end of the tokens: a string that never ends comes first, then an
apostrophe without an expression, then a bracket without a closer. -/
def State.finish (s : State) (openString : Option Span) : Except ParseError (List Value) :=
  match openString with
  | some place => .error ⟨.unterminatedString, place⟩
  | none =>
    match s.pending with
    | some apostrophe => .error ⟨.missingQuoted, apostrophe⟩
    | none =>
      match innermost? s.frames with
      | some (kind, opened) => .error ⟨.unterminatedBracket kind.opener, opened⟩
      | none => .ok s.values

/-- Takes all tokens from a state on. -/
def State.run (o : ParseOptions) (openString : Option Span) :
    State → List Located → Except ParseError (List Value)
  | s, [] => s.finish openString
  | s, t :: ts => do (← s.step o t).run o openString ts

/-- Reads the tokens of a text. -/
def read (o : ParseOptions) (stream : TokenStream) : Except ParseError (List Value) :=
  State.start.run o stream.openString stream.tokens

/-! ## Steps -/

variable {o : ParseOptions} {openString : Option Span}
variable {frames : List Frame} {values : List Value}

/-- With nothing pending a token is taken as it is. -/
theorem run_cons (t : Located) (ts : List Located) :
    State.run o openString ⟨frames, values, none⟩ (t :: ts) =
      (State.accept o ⟨frames, values, none⟩ t).bind fun s => s.run o openString ts := rfl

/-- No token is left where one was due. -/
theorem finish_bracket (kind : Bracket) (opened : Span) (items : List Value) :
    State.finish ⟨.bracket kind opened items :: frames, values, none⟩ openString =
      .error (Reader.atEnd openString ⟨.unterminatedBracket kind.opener, opened⟩) := by
  cases openString <;> rfl

theorem finish_pending (apostrophe : Span) :
    State.finish ⟨frames, values, some apostrophe⟩ openString =
      .error (Reader.atEnd openString ⟨.missingQuoted, apostrophe⟩) := by
  cases openString <;> rfl

/-- As many frames as may enclose each other leave no room for one more. -/
theorem enter_full {pending : Option Span} (h : frames.length = o.maxDepth) (place : Span)
    (frame : Frame) : State.enter o ⟨frames, values, pending⟩ place frame =
      .error ⟨.nestingTooDeep o.maxDepth, place⟩ := if_pos h

theorem enter_below {pending : Option Span} (h : frames.length < o.maxDepth) (place : Span)
    (frame : Frame) : State.enter o ⟨frames, values, pending⟩ place frame =
      .ok ⟨frame :: frames, values, none⟩ := if_neg (Nat.ne_of_lt h)

/-- After an apostrophe, a token that is no closer enters the quote. -/
theorem step_pending {t : Located} (ht : ∀ kind, t.token ≠ .closing kind) (apostrophe : Span) :
    State.step o ⟨frames, values, some apostrophe⟩ t =
      (State.enter o ⟨frames, values, some apostrophe⟩ apostrophe .quote).bind fun s =>
        s.accept o t := by
  unfold State.step
  dsimp only
  split
  · rename_i kind hkind
    exact absurd hkind (ht kind)
  · rfl

theorem run_pending {t : Located} (ht : ∀ kind, t.token ≠ .closing kind) (apostrophe : Span)
    (ts : List Located) :
    State.run o openString ⟨frames, values, some apostrophe⟩ (t :: ts) =
      (State.enter o ⟨frames, values, some apostrophe⟩ apostrophe .quote).bind fun s =>
        s.run o openString (t :: ts) := by
  simp only [State.run, step_pending ht, State.enter]
  split <;> rfl

/-! ## Runs -/

/-- The state that the reader's result leaves the machine in, run to the end:
its value is delivered to the frames that were open before. -/
def resume (o : ParseOptions) (openString : Option Span) (frames : List Frame)
    (values : List Value) {α : Type} {ts : List Located} (build : α → Value) :
    Except ParseError (Taken α ts) → Except ParseError (List Value)
  | .error e => .error e
  | .ok r => (deliver (build r.value) frames values).run o openString r.rest

/-- A token that the innermost frame does not take for its closer. -/
def Continues (frames : List Frame) (t : Located) : Prop :=
  ∀ kind opened items rest, frames = .bracket kind opened items :: rest →
    t.token ≠ .closing kind

theorem continues_nil (t : Located) : Continues [] t := by
  intro kind opened items rest h
  cases h

theorem continues_quote (frames : List Frame) (t : Located) : Continues (.quote :: frames) t := by
  intro kind opened items rest h
  cases h

theorem continues_bracket {kind : Bracket} {t : Located} (ht : t.token ≠ .closing kind)
    (opened : Span) (items : List Value) (frames : List Frame) :
    Continues (.bracket kind opened items :: frames) t := by
  intro kind' opened' items' rest h
  cases h
  exact ht

theorem close_eq_error {kind : Bracket} {t : Located} (ht : t.token = .closing kind)
    (hopen : Continues frames t) :
    State.close ⟨frames, values, none⟩ kind t.span =
      .error ⟨.unexpectedCloser kind.closer, t.span⟩ := by
  simp only [State.close]
  split
  · rw [if_neg]
    intro hkind
    subst hkind
    exact hopen _ _ _ _ rfl ht
  · rfl

mutual

/-- The machine takes one expression as the reader does. -/
theorem run_expression (frames : List Frame) (values : List Value) (t : Located)
    (ts : List Located) (hdepth : frames.length ≤ o.maxDepth) (hopen : Continues frames t) :
    State.run o openString ⟨frames, values, none⟩ (t :: ts) =
      resume o openString frames values id
        (Reader.expression o openString frames.length t ts) := by
  rw [run_cons, Reader.expression.eq_def]
  match ht : t.token with
  | .string content => simp only [State.accept, ht]; rfl
  | .atom content escaped => simp only [State.accept, ht]; rfl
  | .closing kind => simp only [State.accept, ht, close_eq_error ht hopen]; rfl
  | .opening kind =>
    simp only [State.accept, ht]
    by_cases hlimit : o.maxDepth ≤ frames.length
    · rw [if_pos hlimit, enter_full (Nat.le_antisymm hdepth hlimit)]
      rfl
    · rw [if_neg hlimit, enter_below (Nat.lt_of_not_le hlimit)]
      refine (run_items frames values kind t.span [] ts (Nat.lt_of_not_le hlimit)).trans ?_
      cases Reader.items o openString (frames.length + 1) kind t.span ts <;> rfl
  | .apostrophe =>
    simp only [State.accept, ht, Except.bind]
    match ts with
    | [] => exact finish_pending t.span
    | next :: ts' =>
      match hnext : next.token with
      | .closing kind => simp only [State.run, State.step, hnext]; rfl
      | .opening _ | .apostrophe | .string _ | .atom _ _ =>
        rw [run_pending (by simp [hnext])]
        simp only [hnext]
        by_cases hlimit : o.maxDepth ≤ frames.length
        · rw [if_pos hlimit, enter_full (Nat.le_antisymm hdepth hlimit)]
          rfl
        · rw [if_neg hlimit, enter_below (Nat.lt_of_not_le hlimit)]
          have hquote := run_expression (.quote :: frames) values next ts'
            (Nat.lt_of_not_le hlimit) (continues_quote frames next)
          refine hquote.trans ?_
          simp only [List.length_cons]
          cases Reader.expression o openString (frames.length + 1) next ts' <;> rfl
termination_by 2 * ts.length + 1

/-- The machine fills a bracket as the reader does. -/
theorem run_items (frames : List Frame) (values : List Value) (kind : Bracket)
    (opened : Span) (items : List Value) (ts : List Located)
    (hdepth : frames.length < o.maxDepth) :
    State.run o openString ⟨.bracket kind opened items :: frames, values, none⟩ ts =
      resume o openString frames values (fun more => .sequence kind (items ++ more))
        (Reader.items o openString (frames.length + 1) kind opened ts) := by
  rw [Reader.items.eq_def]
  match ts with
  | [] => exact finish_bracket kind opened items
  | t :: ts' =>
    dsimp only
    split
    · rename_i ht
      rw [run_cons]
      simp only [State.accept, ht, State.close, if_true, resume, List.append_nil]
      rfl
    · rename_i ht
      rw [run_expression (.bracket kind opened items :: frames) values t ts' hdepth
        (continues_bracket ht opened items frames)]
      simp only [List.length_cons]
      cases Reader.expression o openString (frames.length + 1) t ts' with
      | error e => rfl
      | ok r =>
        obtain ⟨item, rest, le⟩ := r
        refine (run_items frames values kind opened (items ++ [item]) rest hdepth).trans ?_
        simp only [List.append_assoc, List.singleton_append, bind, Except.bind]
        cases Reader.items o openString (frames.length + 1) kind opened rest <;> rfl
termination_by 2 * ts.length

end

/-- The machine reads a whole text as the reader does. -/
theorem run_program (values : List Value) (ts : List Located) :
    State.run o openString ⟨[], values, none⟩ ts =
      (Reader.program o openString ts).map (values ++ ·) := by
  rw [Reader.program.eq_def]
  match ts with
  | [] => cases openString <;> simp [State.run, State.finish, innermost?, Except.map]
  | t :: ts' =>
    rw [run_expression [] values t ts' (Nat.zero_le _) (continues_nil t)]
    simp only [List.length_nil]
    cases Reader.expression o openString 0 t ts' with
    | error e => rfl
    | ok r =>
      obtain ⟨value, rest, le⟩ := r
      refine (run_program (values ++ [value]) rest).trans ?_
      simp only [bind, Except.bind]
      cases Reader.program o openString rest <;> simp [Except.map, pure, Except.pure]
termination_by ts.length

/-- Every text is read as the machine reads it: the same values or the same
error at the same place, whatever the brackets and the options. -/
theorem parse_eq_machine (brackets : BracketTable) (o : ParseOptions) (source : String) :
    parse brackets o source = read o (tokenize (o.readtable brackets) source) := by
  have hid : (([] : List Value) ++ ·) = id := funext List.nil_append
  unfold parse read State.start
  rw [run_program, hid]
  cases Reader.program o _ _ <;> rfl

end SExpr.Machine
