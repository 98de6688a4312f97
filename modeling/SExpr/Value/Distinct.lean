import SExpr.Value.Equality
import Std.Data.HashMap

/-! For each value of a list the first position of a value equal to it, found by
comparing and found through a hash map. -/

namespace SExpr.Value

/-- The first equal position, by comparing with the values in turn. -/
def firstEqual (values : List Value) : List Nat :=
  values.map fun v => values.findIdx (· == v)

/-- Walks through the values from position `i` on; `seen` maps each value that was
met to its first position. -/
def firstEqualFrom (seen : Std.HashMap Value Nat) (i : Nat) : List Value → List Nat
  | [] => []
  | v :: rest =>
    match seen[v]? with
    | some first => first :: firstEqualFrom seen (i + 1) rest
    | none => i :: firstEqualFrom (seen.insert v i) (i + 1) rest

/-- The first equal position, through a hash map keyed with values. -/
def firstEqualHashed (values : List Value) : List Nat := firstEqualFrom ∅ 0 values

end SExpr.Value
