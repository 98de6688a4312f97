import SExpr.Print

/-! Data of the host program that can be printed as it is.

A native value has a layout of its own, and `toValue` is the value that it stands
for; both print alike. -/

namespace SExpr

inductive Native
  | int8 (n : Int8)
  | int16 (n : Int16)
  | int32 (n : Int32)
  | int64 (n : Int64)
  | uint8 (n : UInt8)
  | uint16 (n : UInt16)
  | uint32 (n : UInt32)
  | float (x : Binary64)
  | bool (b : Bool)
  | text (content : String)
  | none
  /-- A value that is present, written as that value. -/
  | some (inner : Native)
  /-- A value behind a pointer, written as that value. -/
  | shared (inner : Native)
  | array (items : List Native)
  | pair (first second : Native)
  | triple (first second third : Native)
  | symbol (name : String)
  | literal (content : String)
  | value (v : Value)

namespace Native

mutual

def layout (w : Writer) : Native → Except PrintError Layout
  | .int8 n => .ok (Writer.int n.toInt64)
  | .int16 n => .ok (Writer.int n.toInt64)
  | .int32 n => .ok (Writer.int n.toInt64)
  | .int64 n => .ok (Writer.int n)
  | .uint8 n => .ok (Writer.int (.ofNat n.toNat))
  | .uint16 n => .ok (Writer.int (.ofNat n.toNat))
  | .uint32 n => .ok (Writer.int (.ofNat n.toNat))
  | .float x => Writer.float x
  | .bool b => .ok (w.bool b)
  | .text content => w.text content
  | .none => .ok w.nil
  | .some inner => inner.layout w
  | .shared inner => inner.layout w
  | .array items => do return .sequence .parens (← layouts w items)
  | .pair first second => do
    let a ← first.layout w
    let b ← second.layout w
    return .sequence w.tupleKind [a, b]
  | .triple first second third => do
    let a ← first.layout w
    let b ← second.layout w
    let c ← third.layout w
    return .sequence w.tupleKind [a, b, c]
  | .symbol name => w.symbol name
  | .literal content => .ok (Writer.string content)
  | .value v => v.layout w

def layouts (w : Writer) : List Native → Except PrintError (List Layout)
  | [] => .ok []
  | n :: rest => do
    let l ← n.layout w
    let ls ← layouts w rest
    return l :: ls

end

mutual

/-- The value that a native value stands for. -/
def toValue : Native → Value
  | .int8 n => .int n.toInt64
  | .int16 n => .int n.toInt64
  | .int32 n => .int n.toInt64
  | .int64 n => .int n
  | .uint8 n => .int (.ofNat n.toNat)
  | .uint16 n => .int (.ofNat n.toNat)
  | .uint32 n => .int (.ofNat n.toNat)
  | .float x => .float x
  | .bool b => .bool b
  | .text content => .text content
  | .none => .nil
  | .some inner => inner.toValue
  | .shared inner => inner.toValue
  | .array items => .list (toValues items)
  | .pair first second => .tuple [first.toValue, second.toValue]
  | .triple first second third => .tuple [first.toValue, second.toValue, third.toValue]
  | .symbol name => .symbol name
  | .literal content => .literal content
  | .value v => v

def toValues : List Native → List Value
  | [] => []
  | n :: rest => n.toValue :: toValues rest

end

end Native

namespace Writer

def printNativeCompact (w : Writer) (n : Native) : Except PrintError String :=
  (n.layout w).map Layout.simple

def printNativePretty [Display] (w : Writer) (n : Native) : Except PrintError String :=
  (n.layout w).map (Layout.pretty w.options.width)

def printNative [Display] (w : Writer) (n : Native) : Except PrintError String :=
  (n.layout w).map w.render

end Writer
end SExpr
