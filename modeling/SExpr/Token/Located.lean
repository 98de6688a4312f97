import SExpr.Source
import SExpr.Token

/-! Tokens with their places in the source. -/

namespace SExpr

structure Located where
  token : Token
  span : Span
deriving DecidableEq

structure TokenStream where
  tokens : List Located
  /-- The string after the last token that never ends, if there is one. It takes
  up the rest of the source. -/
  openString : Option Span
deriving DecidableEq

namespace Scan

/-- Places lexemes one after another from `m` on; the result ends at the mark. -/
def place (m : Mark) : List Lexeme → List Located × Mark
  | [] => ([], m)
  | l :: rest =>
    let first := m.advance l.gap
    let last := first.advance l.raw
    let (tokens, finish) := place last rest
    (⟨l.token, ⟨first, last⟩⟩ :: tokens, finish)

def located (s : Scan) : TokenStream :=
  let (tokens, finish) := place .start s.lexemes
  match s.ending with
  | .finished _ => ⟨tokens, none⟩
  | .openString gap raw =>
    let first := finish.advance gap
    ⟨tokens, some ⟨first, first.advance raw⟩⟩

theorem map_token_place (m : Mark) (ls : List Lexeme) :
    (place m ls).1.map Located.token = ls.map Lexeme.token := by
  induction ls generalizing m with
  | nil => rfl
  | cons l rest ih => simp [place, ih]

end Scan

def tokenize (rt : Readtable) (source : String) : TokenStream :=
  (scan rt source.toList).located

end SExpr
