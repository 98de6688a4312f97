import SExpr.Parse.Error
import SExpr.Parse.Options
import SExpr.Token.Located
import SExpr.Value

/-! Reading a text.

The reader takes expressions off the front of the tokens. Each function returns
what it read and the tokens that are left, with the proof that they are no more
than before, and it is this that bounds the recursion. A string that never ends
is reported by whoever asks for the token it would have been. -/

namespace SExpr

/-- What is left of the tokens `ts` after a value was read off their front. -/
structure Taken (α : Type) (ts : List Located) where
  value : α
  rest : List Located
  le : rest.length ≤ ts.length

namespace Reader

/-- An atom without escapes: one of the names that the reader was given, a number,
or a symbol. -/
def bareAtom (o : ParseOptions) (content : String) : Value :=
  if o.nilName = some content then .list []
  else if o.trueName = some content then .bool true
  else if o.falseName = some content then .bool false
  else match Number.read? content.toList with
    | some (.int n) => .int n
    | some (.float x) => .float x
    | none => .symbol content

/-- An escaped atom is always a symbol. -/
def atom (o : ParseOptions) (content : String) (escaped : Bool) : Value :=
  if escaped then .symbol content else bareAtom o content

/-- The error of whoever asks for a token when none is left: the string that never
ends, if there is one, and `fault` otherwise. -/
def atEnd (openString : Option Span) (otherwise : ParseError) : ParseError :=
  match openString with
  | some span => ⟨.unterminatedString, span⟩
  | none => otherwise

mutual

/-- The expression that starts with the token `t`, inside `depth` brackets and
apostrophes, with `ts` to follow. -/
def expression (o : ParseOptions) (openString : Option Span) (depth : Nat) (t : Located)
    (ts : List Located) : Except ParseError (Taken Value ts) :=
  match t.token with
  | .string content => .ok ⟨.text content, ts, Nat.le_refl _⟩
  | .atom content escaped => .ok ⟨atom o content escaped, ts, Nat.le_refl _⟩
  | .closing kind => .error ⟨.unexpectedCloser kind.closer, t.span⟩
  | .opening kind =>
    if o.maxDepth ≤ depth then .error ⟨.nestingTooDeep o.maxDepth, t.span⟩
    else do
      let ⟨items, rest, le⟩ ← items o openString (depth + 1) kind t.span ts
      return ⟨.sequence kind items, rest, le⟩
  | .apostrophe =>
    match ts with
    | [] => .error (atEnd openString ⟨.missingQuoted, t.span⟩)
    | next :: ts' =>
      match next.token with
      | .closing _ => .error ⟨.missingQuoted, t.span⟩
      | _ =>
        if o.maxDepth ≤ depth then .error ⟨.nestingTooDeep o.maxDepth, t.span⟩
        else do
          let ⟨inner, rest, le⟩ ← expression o openString (depth + 1) next ts'
          return ⟨.quoted inner, rest, Nat.le_succ_of_le le⟩
termination_by 2 * ts.length + 1

/-- The items up to the closer of the bracket that was opened at `opened`. -/
def items (o : ParseOptions) (openString : Option Span) (depth : Nat) (kind : Bracket)
    (opened : Span) (ts : List Located) : Except ParseError (Taken (List Value) ts) :=
  match ts with
  | [] => .error (atEnd openString ⟨.unterminatedBracket kind.opener, opened⟩)
  | t :: ts' =>
    if t.token = .closing kind then .ok ⟨[], ts', Nat.le_succ _⟩
    else do
      let ⟨item, rest, le⟩ ← expression o openString depth t ts'
      let ⟨more, rest', le'⟩ ← items o openString depth kind opened rest
      return ⟨item :: more, rest', Nat.le_succ_of_le (Nat.le_trans le' le)⟩
termination_by 2 * ts.length

end

def program (o : ParseOptions) (openString : Option Span) (ts : List Located) :
    Except ParseError (List Value) :=
  match ts with
  | [] =>
    match openString with
    | some span => .error ⟨.unterminatedString, span⟩
    | none => .ok []
  | t :: ts' => do
    let ⟨value, rest, _⟩ ← expression o openString 0 t ts'
    let values ← program o openString rest
    return value :: values
termination_by ts.length

end Reader

/-- Reads all expressions of a source text. -/
def parse (brackets : BracketTable) (o : ParseOptions) (source : String) :
    Except ParseError (List Value) :=
  let stream := tokenize (o.readtable brackets) source
  Reader.program o stream.openString stream.tokens

/-- Reads the one expression of a source text. -/
def parseOne (brackets : BracketTable) (o : ParseOptions) (source : String) :
    Except ParseError Value := do
  match ← parse brackets o source with
  | [value] => return value
  | values =>
    throw ⟨.expectedSingle values.length, ⟨.start, Mark.start.advance source.toList⟩⟩

end SExpr
