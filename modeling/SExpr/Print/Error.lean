import SExpr.Binary64.Text
import SExpr.Bracket

/-! Why a value can not be printed. -/

namespace SExpr

inductive PrintError
  /-- No option of that name takes that value. -/
  | invalidOption (option value : String)
  /-- The reader would not know the brackets. -/
  | unknownBracket (kind : Bracket)
  /-- An empty symbol would not be seen. -/
  | emptySymbol
  /-- No text is read as that number. -/
  | nonFinite (x : Binary64)
deriving DecidableEq

def PrintError.message : PrintError → String
  | .invalidOption option value => "invalid value `" ++ value ++ "` for option `" ++ option ++ "`"
  | .unknownBracket kind =>
    "bracket kind `" ++ kind.opener.toString ++ kind.closer.toString ++ "` is not registered"
  | .emptySymbol => "can not print an empty symbol"
  | .nonFinite x => "can not print the non-finite float " ++ x.name

end SExpr
