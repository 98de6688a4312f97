/-! How a string is written between double quotes.

Writing uses seven escapes of two characters and leaves all else as it is.
Reading knows these and the code point escape; a backslash that starts neither
stands for itself, so every body can be read. -/

namespace SExpr.StringLiteral

/-- The characters that are escaped, and the letter after the backslash. -/
def escapes : List (Char × Char) :=
  [('\\', '\\'), ('"', '"'), ('\x08', 'b'), ('\x0c', 'f'), ('\n', 'n'), ('\r', 'r'), ('\t', 't')]

def letterOf? (c : Char) : Option Char :=
  (escapes.find? (·.1 == c)).map (·.2)

def charOf? (letter : Char) : Option Char :=
  (escapes.find? (·.2 == letter)).map (·.1)

theorem charOf?_of_letterOf? {c letter : Char} (h : letterOf? c = some letter) :
    charOf? letter = some c := by
  obtain ⟨pair, hfind, rfl⟩ := Option.map_eq_some_iff.mp h
  have hchar : pair.1 = c := by simpa using List.find?_some hfind
  have hmem := List.mem_of_find?_eq_some hfind
  subst hchar
  revert hmem
  simp only [escapes, List.mem_cons, List.not_mem_nil, or_false]
  rintro (rfl | rfl | rfl | rfl | rfl | rfl | rfl) <;> rfl

/-! ## Writing -/

def encodeChar (c : Char) : List Char :=
  match letterOf? c with
  | some letter => ['\\', letter]
  | none => [c]

def encode (text : List Char) : List Char := '"' :: (text.flatMap encodeChar ++ ['"'])

/-! ## Reading -/

/-- Either letter case counts. -/
def isHexDigit (c : Char) : Bool :=
  c.isDigit || ('a' ≤ c && c ≤ 'f') || ('A' ≤ c && c ≤ 'F')

def hexDigitValue (c : Char) : Nat :=
  if c.isDigit then c.toNat - '0'.toNat
  else if 'a' ≤ c then c.toNat - 'a'.toNat + 10
  else c.toNat - 'A'.toNat + 10

/-- The value of hexadecimal digits, leading zeros included. -/
def hexValue (digits : List Char) : Nat :=
  digits.foldl (fun n c => 16 * n + hexDigitValue c) 0

/-- The character with code point `n`: surrogates and numbers beyond the last
code point have none. -/
def scalar? (n : Nat) : Option Char :=
  if n.isValidChar then some (Char.ofNat n) else none

/-- The digits of a code point escape and what follows it, given the text after
the backslash. -/
def hexEscape? : List Char → Option (List Char × List Char)
  | 'u' :: '\x7b' :: rest =>
    let digits := rest.takeWhile isHexDigit
    match rest.dropWhile isHexDigit with
    | '\x7d' :: after => if digits.isEmpty then none else some (digits, after)
    | _ => none
  | _ => none

theorem eq_of_hexEscape? {text digits after : List Char}
    (h : hexEscape? text = some (digits, after)) :
    text = 'u' :: '\x7b' :: (digits ++ '\x7d' :: after) := by
  unfold hexEscape? at h
  split at h
  · rename_i rest
    dsimp only at h
    split at h
    · rename_i after' hd
      split at h
      · contradiction
      · simp only [Option.some.injEq, Prod.mk.injEq] at h
        have := List.takeWhile_append_dropWhile (p := isHexDigit) (l := rest)
        rw [hd] at this
        rw [← h.1, ← h.2, this]
    · contradiction
  · contradiction

/-- What a code point escape stands for: its character, or the escape itself if
there is no such character. -/
def hexText (digits : List Char) : List Char :=
  match scalar? (hexValue digits) with
  | some c => [c]
  | none => '\\' :: 'u' :: '\x7b' :: (digits ++ ['\x7d'])

/-- The text that a body stands for. At a backslash a code point escape comes
first, then the escapes of two characters, then the backslash itself. -/
def decode : List Char → List Char
  | [] => []
  | '\\' :: rest =>
    match h : hexEscape? rest with
    | some (digits, after) =>
      have : after.length < rest.length + 1 := by simp [eq_of_hexEscape? h]; omega
      hexText digits ++ decode after
    | none =>
      match rest with
      | [] => ['\\']
      | letter :: after =>
        match charOf? letter with
        | some c => c :: decode after
        | none => '\\' :: decode (letter :: after)
  | c :: rest => c :: decode rest
termination_by body => body.length

/-- The body of a string and what follows its closing quote, given the text after
the opening one. A backslash hides the character after it. -/
def splitBody? : List Char → Option (List Char × List Char)
  | [] => none
  | '"' :: rest => some ([], rest)
  | '\\' :: c :: rest =>
    match splitBody? rest with
    | some (body, after) => some ('\\' :: c :: body, after)
    | none => none
  | c :: rest =>
    match splitBody? rest with
    | some (body, after) => some (c :: body, after)
    | none => none

theorem eq_of_splitBody? {text body after : List Char}
    (h : splitBody? text = some (body, after)) : text = body ++ '"' :: after := by
  fun_induction splitBody? text generalizing body after <;> grind

end SExpr.StringLiteral
