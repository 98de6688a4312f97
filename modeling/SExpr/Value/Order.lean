/-! The order of symbols and of literals is that of their texts, by code points. -/

namespace SExpr.Value

/-- Sorted by code points; repeated names stay. -/
def sortNames (names : List String) : List String := names.mergeSort (· ≤ ·)

end SExpr.Value
