/-! The columns that a text takes up.

Plain text takes one column for each character. Of any other text only the display
knows how wide it is, so that lines are laid out for a `Display`; a text is measured
as a whole, as the width of a text need not be the sum of the widths of its parts. -/

namespace SExpr

/-- What a text is shown on. -/
class Display where
  /-- The columns of a text that is not plain. -/
  columns : String → Nat

namespace Width

def isPlain (text : String) : Bool := text.toList.all (·.toNat < 128)

def ofText [Display] (text : String) : Nat :=
  if isPlain text then text.length else Display.columns text

theorem ofText_of_isPlain [Display] {text : String} (h : isPlain text = true) :
    ofText text = text.length := if_pos h

@[simp]
theorem ofText_empty [Display] : ofText "" = 0 := ofText_of_isPlain rfl

theorem ofText_space [Display] : ofText " " = 1 := ofText_of_isPlain rfl

theorem ofText_apostrophe [Display] : ofText "'" = 1 := ofText_of_isPlain rfl

/-! ## A display with wide characters -/

/-- Blocks of East Asian scripts and of emoji. -/
def wideBlocks : List (Nat × Nat) :=
  [(0x1100, 0x115F), (0x2E80, 0x303E), (0x3041, 0xA4C6), (0xA960, 0xA97C), (0xAC00, 0xD7A3),
   (0xF900, 0xFAFF), (0xFE30, 0xFE6B), (0xFF01, 0xFF60), (0xFFE0, 0xFFE6), (0x1F300, 0x1F64F),
   (0x1F680, 0x1F6FF), (0x1F900, 0x1F9FF), (0x20000, 0x3FFFD)]

def isWide (c : Char) : Bool :=
  wideBlocks.any fun (first, last) => first ≤ c.toNat && c.toNat ≤ last

def isAccent (c : Char) : Bool := 0x300 ≤ c.toNat && c.toNat ≤ 0x36F

def ofChar (c : Char) : Nat := if isAccent c then 0 else if isWide c then 2 else 1

def ofChars (cs : List Char) : Nat := cs.foldl (fun columns c => columns + ofChar c) 0

/-- A display that shows every character on its own; it is meant where no other is
given. Scripts whose characters are joined want a display of their own. -/
instance (priority := low) blocks : Display where
  columns text := ofChars text.toList

end Width
end SExpr
