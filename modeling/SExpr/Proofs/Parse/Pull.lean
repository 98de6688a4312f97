import SExpr.Proofs.Token.Tiling

/-! # Reading token by token

A reader that asks for its tokens one at a time, and does not know beforehand how many
there are. Its loops go on for as long as they are given tokens, so a number bounds how
deep its calls may nest, and at the bound it gives up. `reading_advances` says that it
never has to: every token takes up characters of the source, so twice the number of
these is enough, and what it comes to is what `parse` does with all tokens at hand. -/

namespace SExpr

variable {rt : Readtable}

/-- A place of the source from which on tokens are asked for. -/
structure Cursor where
  mark : Mark
  /-- What comes behind the mark. -/
  text : List Char

namespace Cursor

def start (source : String) : Cursor := ⟨.start, source.toList⟩

/-- Asks for one token. -/
def next (rt : Readtable) (c : Cursor) : Except ParseError (Option (Located × Cursor)) :=
  match Scan.next rt c.text with
  | .done (.finished _) => .ok none
  | .done (.openString gap raw) =>
    .error ⟨.unterminatedString, ⟨c.mark.advance gap, (c.mark.advance gap).advance raw⟩⟩
  | .more l rest => .ok (some (l.located c.mark, ⟨(l.located c.mark).span.last, rest⟩))

/-- Asks for tokens until there are no more, or gives up after so many calls. -/
def drain (rt : Readtable) : Nat → Cursor → Option TokenStream
  | 0, _ => none
  | calls + 1, c =>
    match c.next rt with
    | .ok none => some ⟨[], none⟩
    | .error e => some ⟨[], some e.span⟩
    | .ok (some (t, c')) => (drain rt calls c').map (TokenStream.prepend [t])

end Cursor

/-! ## The reader -/

namespace Pull

/-- What a reader that may give up comes to: nothing, an error or a result. -/
def Attempt (α : Type) : Type := Option (Except ParseError α)

instance : Monad Attempt := inferInstanceAs (Monad (ExceptT ParseError Option))

def fail {α : Type} (e : ParseError) : Attempt α := some (.error e)

def ask (rt : Readtable) (c : Cursor) : Attempt (Option (Located × Cursor)) := some (c.next rt)

mutual

/-- The expression that starts with the token `t`, and the place behind it. -/
def expression (rt : Readtable) (o : ParseOptions) :
    Nat → Nat → Located → Cursor → Attempt (Value × Cursor)
  | 0, _, _, _ => none
  | fuel + 1, depth, t, c =>
    match t.token with
    | .string content => pure (.text content, c)
    | .atom content escaped => pure (Reader.atom o content escaped, c)
    | .closing kind => fail ⟨.unexpectedCloser kind.closer, t.span⟩
    | .opening kind =>
      if o.maxDepth ≤ depth then fail ⟨.nestingTooDeep o.maxDepth, t.span⟩
      else do
        let (items, c) ← items rt o fuel (depth + 1) kind t.span c
        return (.sequence kind items, c)
    | .apostrophe => do
      match ← ask rt c with
      | none => fail ⟨.missingQuoted, t.span⟩
      | some (next, c) =>
        match next.token with
        | .closing _ => fail ⟨.missingQuoted, t.span⟩
        | _ =>
          if o.maxDepth ≤ depth then fail ⟨.nestingTooDeep o.maxDepth, t.span⟩
          else do
            let (inner, c) ← expression rt o fuel (depth + 1) next c
            return (.quoted inner, c)

/-- The items up to the closer, and the place behind it. -/
def items (rt : Readtable) (o : ParseOptions) :
    Nat → Nat → Bracket → Span → Cursor → Attempt (List Value × Cursor)
  | 0, _, _, _, _ => none
  | fuel + 1, depth, kind, opened, c => do
    match ← ask rt c with
    | none => fail ⟨.unterminatedBracket kind.opener, opened⟩
    | some (t, c) =>
      if t.token = .closing kind then return ([], c)
      else do
        let (item, c) ← expression rt o fuel depth t c
        let (more, c) ← items rt o fuel depth kind opened c
        return (item :: more, c)

end

/-- All expressions from a place on. -/
def program (rt : Readtable) (o : ParseOptions) : Nat → Cursor → Attempt (List Value)
  | 0, _ => none
  | fuel + 1, c => do
    match ← ask rt c with
    | none => return []
    | some (t, c) => do
      let (value, c) ← expression rt o fuel 0 t c
      let values ← program rt o fuel c
      return value :: values

/-- Reads the source with calls that nest at most `fuel` deep. -/
def parse (brackets : BracketTable) (o : ParseOptions) (fuel : Nat) (source : String) :
    Attempt (List Value) :=
  program (o.readtable brackets) o fuel (.start source)

end Pull

/-! ## Tokens to come -/

namespace Cursor

/-- All tokens from a place on. -/
def stream (rt : Readtable) (c : Cursor) : TokenStream := (scan rt c.text).locatedFrom c.mark

variable {c : Cursor} {t : Located} {ts : List Located} {openString : Option Span}

theorem next_of_nil (h : c.stream rt = ⟨[], openString⟩) :
    c.next rt = match openString with
      | some place => .error ⟨.unterminatedString, place⟩
      | none => .ok none := by
  unfold stream at h
  unfold next
  cases hnext : Scan.next rt c.text with
  | done ending =>
    rw [scan_of_done hnext] at h
    cases ending <;> cases h <;> rfl
  | more l rest =>
    rw [locatedFrom_of_more hnext] at h
    cases h

theorem exists_next_of_cons (h : c.stream rt = ⟨t :: ts, openString⟩) :
    ∃ c', c.next rt = .ok (some (t, c')) ∧ c'.stream rt = ⟨ts, openString⟩ := by
  unfold stream at h
  unfold next
  cases hnext : Scan.next rt c.text with
  | done ending =>
    rw [scan_of_done hnext] at h
    cases ending <;> cases h
  | more l rest =>
    rw [locatedFrom_of_more hnext] at h
    cases h
    exact ⟨_, rfl, rfl⟩

/-- One call for each token, and one more that finds none. -/
theorem drain_eq (calls : Nat) (c : Cursor) :
    c.drain rt calls =
      if (c.stream rt).tokens.length < calls then some (c.stream rt) else none := by
  obtain ⟨⟨ts, openString⟩, hstream⟩ : ∃ s, c.stream rt = s := ⟨_, rfl⟩
  rw [hstream]
  induction ts generalizing calls c with
  | nil =>
    cases calls with
    | zero => rfl
    | succ calls =>
      rw [drain, next_of_nil hstream]
      cases openString <;> rfl
  | cons t ts ih =>
    cases calls with
    | zero => rfl
    | succ calls =>
      obtain ⟨c', hnext, hstream'⟩ := exists_next_of_cons hstream
      simp only [drain, hnext, ih calls c' hstream', List.length_cons, Nat.add_lt_add_iff_right]
      split <;> rfl

end Cursor

/-! ## Enough fuel -/

namespace Pull

variable {o : ParseOptions} {openString : Option Span} {α β : Type} {ts us : List Located}

/-- Both readers fail with the same error, or they read the same and the tokens that the
one has left are those that the other has still to ask for. -/
inductive Agrees (rt : Readtable) (openString : Option Span) :
    Attempt (α × Cursor) → Except ParseError (Taken α ts) → Prop
  | error (e : ParseError) : Agrees rt openString (fail e) (.error e)
  | ok {r : Taken α ts} {c : Cursor} : c.stream rt = ⟨r.rest, openString⟩ →
      Agrees rt openString (pure (r.value, c)) (.ok r)

theorem Agrees.bind {x : Attempt (α × Cursor)} {y : Except ParseError (Taken α ts)}
    (h : Agrees rt openString x y) {f : α × Cursor → Attempt (β × Cursor)}
    {g : Taken α ts → Except ParseError (Taken β us)}
    (hf : ∀ r c, c.stream rt = ⟨r.rest, openString⟩ →
      Agrees rt openString (f (r.value, c)) (g r)) :
    Agrees rt openString (x >>= f) (y >>= g) := by
  cases h with
  | error e => exact .error e
  | ok hc => exact hf _ _ hc

/-- The same for what ends with the source. -/
theorem Agrees.bind_eq {x : Attempt (α × Cursor)} {y : Except ParseError (Taken α ts)}
    (h : Agrees rt openString x y) {f : α × Cursor → Attempt β}
    {g : Taken α ts → Except ParseError β}
    (hf : ∀ r c, c.stream rt = ⟨r.rest, openString⟩ → f (r.value, c) = some (g r)) :
    x >>= f = some (y >>= g) := by
  cases h with
  | error e => rfl
  | ok hc => exact hf _ _ hc

/-- Who asks for a token when none is left fails as the reader of all tokens does. -/
theorem ask_of_nil {c : Cursor} (h : c.stream rt = ⟨[], openString⟩) (e : ParseError)
    {f : Option (Located × Cursor) → Attempt α} (hf : f none = fail e) :
    ask rt c >>= f = fail (Reader.atEnd openString e) := by
  rw [ask, Cursor.next_of_nil h]
  cases openString with
  | some place => rfl
  | none => exact hf

theorem exists_ask_of_cons {c : Cursor} {t : Located} (h : c.stream rt = ⟨t :: ts, openString⟩) :
    ∃ c', c'.stream rt = ⟨ts, openString⟩ ∧
      ∀ f : Option (Located × Cursor) → Attempt α, ask rt c >>= f = f (some (t, c')) := by
  obtain ⟨c', hnext, hc'⟩ := Cursor.exists_next_of_cons h
  refine ⟨c', hc', fun f => ?_⟩
  rw [ask, hnext]
  rfl

-- The induction is on the fuel. A call takes one off it, and what it is left with is
-- enough because the tokens grow fewer, by `Taken.le` also behind an expression.

mutual

theorem expression_agrees (fuel depth : Nat) (t : Located) {ts : List Located} {c : Cursor}
    (hc : c.stream rt = ⟨ts, openString⟩) (hfuel : 2 * ts.length + 1 < fuel) :
    Agrees rt openString (expression rt o fuel depth t c)
      (Reader.expression o openString depth t ts) := by
  match fuel with
  | 0 => contradiction
  | fuel + 1 =>
    rw [expression, Reader.expression.eq_def]
    match t.token with
    | .string content => exact .ok (r := ⟨_, ts, _⟩) hc
    | .atom content escaped => exact .ok (r := ⟨_, ts, _⟩) hc
    | .closing kind => exact .error _
    | .opening kind =>
      dsimp only
      split
      · exact .error _
      · refine (items_agrees fuel (depth + 1) kind t.span hc (by omega)).bind fun r c' hc' => ?_
        exact .ok (r := ⟨_, _, _⟩) hc'
    | .apostrophe =>
      cases ts with
      | nil =>
        rw [ask_of_nil hc _ rfl]
        exact .error _
      | cons next ts =>
        rw [List.length_cons] at hfuel
        obtain ⟨c', hc', hask⟩ := exists_ask_of_cons (α := Value × Cursor) hc
        rw [hask]
        match hnext : next.token with
        | .closing kind =>
          simp only [hnext]
          exact .error _
        | .opening _ | .apostrophe | .string _ | .atom _ _ =>
          simp only [hnext]
          split
          · exact .error _
          · refine (expression_agrees fuel (depth + 1) next hc' (by omega)).bind fun r d hd => ?_
            exact .ok (r := ⟨_, _, _⟩) hd
termination_by structural fuel

theorem items_agrees (fuel depth : Nat) (kind : Bracket) (opened : Span) {ts : List Located}
    {c : Cursor} (hc : c.stream rt = ⟨ts, openString⟩) (hfuel : 2 * ts.length < fuel) :
    Agrees rt openString (items rt o fuel depth kind opened c)
      (Reader.items o openString depth kind opened ts) := by
  match fuel with
  | 0 => contradiction
  | fuel + 1 =>
    rw [items, Reader.items.eq_def]
    cases ts with
    | nil =>
      rw [ask_of_nil hc _ rfl]
      exact .error _
    | cons t ts =>
      rw [List.length_cons] at hfuel
      obtain ⟨c', hc', hask⟩ := exists_ask_of_cons (α := List Value × Cursor) hc
      rw [hask]
      dsimp only
      split
      · exact .ok (r := ⟨_, _, _⟩) hc'
      · refine (expression_agrees fuel depth t hc' (by omega)).bind fun r d hd => ?_
        have hle := r.le
        refine (items_agrees fuel depth kind opened hd (by omega)).bind fun r' d' hd' => ?_
        exact .ok (r := ⟨_, _, _⟩) hd'
termination_by structural fuel

end

theorem program_eq (fuel : Nat) {ts : List Located} {c : Cursor}
    (hc : c.stream rt = ⟨ts, openString⟩) (hfuel : 2 * ts.length < fuel) :
    program rt o fuel c = some (Reader.program o openString ts) := by
  induction fuel generalizing ts c with
  | zero => contradiction
  | succ fuel ih =>
    rw [program, Reader.program.eq_def]
    cases ts with
    | nil =>
      rw [ask, Cursor.next_of_nil hc]
      cases openString <;> rfl
    | cons t ts =>
      rw [List.length_cons] at hfuel
      obtain ⟨c', hc', hask⟩ := exists_ask_of_cons (α := List Value) hc
      rw [hask]
      dsimp only
      refine (expression_agrees fuel 0 t hc' (by omega)).bind_eq fun r d hd => ?_
      have hle := r.le
      dsimp only
      rw [ih hd (by omega)]
      cases Reader.program o openString r.rest <;> rfl

end Pull

/-! ## Sources -/

/-- Nothing of a source is lost between its tokens, and whoever asks for them comes to the
end. This takes a call for each token and one more; and a reader whose calls may nest
deeper than twice the number of characters never gives up, but has its values or its
error. -/
theorem reading_advances (t : BracketTable) (o : ParseOptions) (source : String) :
    (tokenize (o.readtable t) source).Tiles (o.readtable t) source ∧
    (∀ calls, (Cursor.start source).drain (o.readtable t) calls =
      if (tokenize (o.readtable t) source).tokens.length < calls
      then some (tokenize (o.readtable t) source) else none) ∧
    ∀ fuel, 2 * source.length < fuel → Pull.parse t o fuel source = some (parse t o source) := by
  have htiles := tiles_tokenize (o.readtable t) source
  refine ⟨htiles, fun calls => Cursor.drain_eq calls (.start source), fun fuel hfuel => ?_⟩
  have hlength := htiles.length_le
  rw [TokenStream.spans, List.length_append, List.length_map] at hlength
  exact Pull.program_eq fuel rfl (by omega)

/-- The backslash starts comments and is an escape all the same, between characters of
two bytes. -/
theorem reading_advances_backslash :
    tokenize ⟨BracketTable.default.offer ⟨'«', '»'⟩, '\\'⟩ "«é\\ »\\« »" =
      ⟨[⟨.opening ⟨'«', '»'⟩, ⟨⟨0, 0⟩, ⟨1, 2⟩⟩⟩, ⟨.atom "é " true, ⟨⟨1, 2⟩, ⟨4, 6⟩⟩⟩,
        ⟨.closing ⟨'«', '»'⟩, ⟨⟨4, 6⟩, ⟨5, 8⟩⟩⟩], none⟩ ∧
    (∃ before slice after, Span.Names ⟨⟨1, 2⟩, ⟨4, 6⟩⟩ "«é\\ »\\« »" before slice after ∧
      tokenize ⟨BracketTable.default.offer ⟨'«', '»'⟩, '\\'⟩ slice =
        ⟨[⟨.atom "é " true, ⟨.start, .behind slice⟩⟩], none⟩) ∧
    2 * "«é\\ »\\« »".length < 19 ∧
    Pull.parse (BracketTable.default.offer ⟨'«', '»'⟩) { comment := '\\' } 19 "«é\\ »\\« »" =
      some (.ok [.sequence ⟨'«', '»'⟩ [.symbol "é "]]) := by
  have htokens : tokenize ⟨BracketTable.default.offer ⟨'«', '»'⟩, '\\'⟩ "«é\\ »\\« »" =
      ⟨[⟨.opening ⟨'«', '»'⟩, ⟨⟨0, 0⟩, ⟨1, 2⟩⟩⟩, ⟨.atom "é " true, ⟨⟨1, 2⟩, ⟨4, 6⟩⟩⟩,
        ⟨.closing ⟨'«', '»'⟩, ⟨⟨4, 6⟩, ⟨5, 8⟩⟩⟩], none⟩ := by decide +kernel
  have hparse : parse (BracketTable.default.offer ⟨'«', '»'⟩) { comment := '\\' } "«é\\ »\\« »" =
      .ok [.sequence ⟨'«', '»'⟩ [.symbol "é "]] := by
    rw [parse, ParseOptions.readtable, htokens, Reader.program_eq_run]
    rfl
  obtain ⟨htiles, -, hreads⟩ := reading_advances (BracketTable.default.offer ⟨'«', '»'⟩)
    { comment := '\\' } "«é\\ »\\« »"
  have hatom := htiles.slice_eq ⟨.atom "é " true, ⟨⟨1, 2⟩, ⟨4, 6⟩⟩⟩ <| by
    rw [ParseOptions.readtable, htokens]
    decide
  have hfuel : 2 * "«é\\ »\\« »".length < 19 := by decide
  exact ⟨htokens, hatom, hfuel, (hreads 19 hfuel).trans (congrArg some hparse)⟩

end SExpr
