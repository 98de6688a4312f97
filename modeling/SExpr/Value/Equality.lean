import SExpr.Value

/-! Equality and hashing of values.

Values are equal when they have the same form and equal parts. Floats are compared
as numbers, with one NaN and one zero, and hashed by that number as well, so equal
values have equal hashes. -/

namespace SExpr

instance : Hashable Binary64 where
  hash x := hash x.canonical.bits

namespace Value

mutual

def beq : Value → Value → Bool
  | .symbol a, .symbol b => a == b
  | .literal a, .literal b => a == b
  | .text a, .text b => a == b
  | .int a, .int b => a == b
  | .float a, .float b => a.sameNumber b
  | .bool a, .bool b => a == b
  | .nil, .nil => true
  | .quoted a, .quoted b => a.beq b
  | .sequence j as, .sequence k bs => j == k && beqList as bs
  | .tuple as, .tuple bs => beqList as bs
  | _, _ => false

def beqList : List Value → List Value → Bool
  | [], [] => true
  | a :: as, b :: bs => a.beq b && beqList as bs
  | _, _ => false

end

instance : BEq Value := ⟨beq⟩

mutual

/-- Mixes a number for the form with the hashes of the parts. -/
def hashCode : Value → UInt64
  | .symbol a => mixHash 1 (hash a)
  | .literal a => mixHash 2 (hash a)
  | .text a => mixHash 3 (hash a)
  | .int a => mixHash 4 (hash a.toUInt64)
  | .float a => mixHash 5 (hash a)
  | .bool a => mixHash 6 (hash a)
  | .nil => 7
  | .quoted a => mixHash 8 a.hashCode
  | .sequence k as => mixHash (mixHash 9 (hash k)) (hashCodeList as)
  | .tuple as => mixHash 10 (hashCodeList as)

def hashCodeList : List Value → UInt64
  | [] => 11
  | a :: as => mixHash a.hashCode (hashCodeList as)

end

instance : Hashable Value := ⟨hashCode⟩

end Value
end SExpr
