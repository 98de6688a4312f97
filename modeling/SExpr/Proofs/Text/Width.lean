import SExpr.Text.Width

/-! # Texts that are as wide as their parts

Lines are measured text by text, whatever the display does where texts meet. On a display
that is `Additive` it makes no difference to measure them as a whole. -/

namespace SExpr

/-- The width of a text is that of its parts. -/
def Display.Additive [Display] : Prop :=
  ∀ first second : String,
    Width.ofText (first ++ second) = Width.ofText first + Width.ofText second

namespace Width

theorem plain_lt_of_mem_wideBlocks : ∀ block ∈ wideBlocks, 128 ≤ block.1 := by decide

theorem ofChar_of_plain {c : Char} (h : c.toNat < 128) : ofChar c = 1 := by
  have haccent : isAccent c = false := by
    simp only [isAccent, Bool.and_eq_false_iff, decide_eq_false_iff_not]
    omega
  have hwide : isWide c = false := by
    rw [isWide, List.any_eq_false]
    intro block hblock
    have hfirst := plain_lt_of_mem_wideBlocks block hblock
    simp only [Bool.and_eq_true, decide_eq_true_eq]
    omega
  rw [ofChar, haccent, hwide]
  rfl

theorem foldl_ofChar (cs : List Char) (columns : Nat) :
    cs.foldl (fun columns c => columns + ofChar c) columns = columns + ofChars cs := by
  induction cs generalizing columns with
  | nil => rfl
  | cons c cs ih =>
    rw [ofChars, List.foldl_cons, List.foldl_cons, ih, ih, Nat.zero_add, Nat.add_assoc]

theorem ofChars_append (cs ds : List Char) : ofChars (cs ++ ds) = ofChars cs + ofChars ds := by
  rw [ofChars, List.foldl_append, foldl_ofChar]
  rfl

theorem ofChars_of_plain {cs : List Char} (h : ∀ c ∈ cs, c.toNat < 128) :
    ofChars cs = cs.length := by
  induction cs with
  | nil => rfl
  | cons c cs ih =>
    obtain ⟨hc, hcs⟩ := List.forall_mem_cons.mp h
    rw [← List.singleton_append, ofChars_append, ih hcs, List.length_append]
    exact congrArg (· + cs.length) ((Nat.zero_add _).trans (ofChar_of_plain hc))

/-- Plain text is no exception where every character is shown on its own. -/
theorem ofText_blocks (text : String) : ofText text = ofChars text.toList := by
  by_cases h : isPlain text = true
  · have hplain : ∀ c ∈ text.toList, c.toNat < 128 := by simpa [isPlain] using h
    rw [ofText_of_isPlain h, ofChars_of_plain hplain, String.length_toList]
  · exact if_neg h

theorem additive_blocks : Display.Additive := by
  intro first second
  rw [ofText_blocks, ofText_blocks, ofText_blocks, String.toList_append, ofChars_append]

end Width
end SExpr
