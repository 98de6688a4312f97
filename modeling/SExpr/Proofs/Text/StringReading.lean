import Mathlib.Data.List.TakeWhile
import SExpr.Proofs.Text.CodePoint
import SExpr.Proofs.Text.StringLiteral

/-! # The body of a string, piece by piece

Where a string ends is found by one scan and what it stands for by another, and the
two cut the text differently: for the first a backslash goes with one character, for
the second with a whole code point escape. `Reads` cuts a body into pieces by the rules
for escapes alone. Both scans follow it: a quote ends the bodies that can be cut in this
way and no others, and each of them is decoded piece by piece.

A text may be written as any body whose pieces stand for its characters, and the body
that a writer chooses is one of these. -/

namespace SExpr.StringLiteral

/-! ## Pieces -/

/-- A piece of a body that is read at once. -/
inductive Piece
  /-- A character that stands for itself. -/
  | plain (c : Char)
  /-- An escape with these digits, a form of the number `n`. -/
  | codePoint (n : Nat) (digits : List Char)
  /-- A letter behind a backslash, and the character that the two stand for. -/
  | escape (letter c : Char)
  /-- A letter behind a backslash that starts no escape. -/
  | unknown (letter : Char)
deriving DecidableEq

namespace Piece

/-- How the piece is spelled. -/
def raw : Piece → List Char
  | .plain c => [c]
  | .codePoint _ digits => '\\' :: 'u' :: '\x7b' :: (digits ++ ['\x7d'])
  | .escape letter _ | .unknown letter => ['\\', letter]

/-- What the piece stands for. A number that is a surrogate or too large is no
character, and the escape stands for itself. -/
def text : Piece → List Char
  | .plain c | .escape _ c => [c]
  | .codePoint n digits => if n.isValidChar then [Char.ofNat n] else (codePoint n digits).raw
  | .unknown letter => ['\\', letter]

end Piece

/-- A code point escape begins behind the backslash before this text. -/
def StartsCodePoint (text : List Char) : Prop :=
  ∃ n digits rest, IsHexadecimal n digits ∧ text = 'u' :: '\x7b' :: (digits ++ '\x7d' :: rest)

/-- The pieces of a body from left to right. A backslash starts a code point escape if it
can, else an escape of the table, else it stands for itself; no piece is left for a
backslash with nothing behind it, nor for a quote without a backslash. -/
inductive Reads : List Char → List Piece → Prop
  | nil : Reads [] []
  | plain {c : Char} {body : List Char} {pieces : List Piece} : c ≠ '"' → c ≠ '\\' →
      Reads body pieces → Reads (c :: body) (.plain c :: pieces)
  | codePoint {n : Nat} {digits body : List Char} {pieces : List Piece} :
      IsHexadecimal n digits → Reads body pieces →
      Reads ('\\' :: 'u' :: '\x7b' :: (digits ++ '\x7d' :: body)) (.codePoint n digits :: pieces)
  | escape {letter c : Char} {body : List Char} {pieces : List Piece} : (c, letter) ∈ escapes →
      Reads body pieces → Reads ('\\' :: letter :: body) (.escape letter c :: pieces)
  | unknown {letter : Char} {body : List Char} {pieces : List Piece} :
      ¬ StartsCodePoint (letter :: body) → (∀ c, (c, letter) ∉ escapes) →
      Reads body pieces → Reads ('\\' :: letter :: body) (.unknown letter :: pieces)

variable {c letter : Char} {n : Nat} {digits text body rest : List Char}

/-- Nothing is lost and nothing is read twice. -/
theorem Reads.flatMap_raw {pieces : List Piece} (h : Reads body pieces) :
    pieces.flatMap Piece.raw = body := by
  induction h with
  | nil => rfl
  | plain _ _ _ ih | codePoint _ _ ih | escape _ _ ih | unknown _ _ _ ih =>
    simp [Piece.raw, ih]

/-! ## Escapes -/

theorem hexEscape?_eq_some_iff : hexEscape? text = some (digits, rest) ↔
    text = 'u' :: '\x7b' :: (digits ++ '\x7d' :: rest) ∧
      IsHexadecimal (hexValue digits) digits := by
  constructor
  · intro h
    refine ⟨eq_of_hexEscape? h, ?_⟩
    unfold hexEscape? at h
    split at h
    · dsimp only at h
      split at h
      · split at h
        · contradiction
        · rename_i hne
          cases h
          exact isHexadecimal_hexValue (by simpa using hne) fun c hc => List.mem_takeWhile_imp hc
      · contradiction
    · contradiction
  · intro h
    obtain ⟨rfl, hdigits⟩ := h
    obtain ⟨hne, hhex, -⟩ := isHexadecimal_iff.mp hdigits
    simp [hexEscape?, List.takeWhile_append_of_pos hhex, List.dropWhile_append_of_pos hhex,
      show isHexDigit '\x7d' = false from rfl, hne]

theorem hexEscape?_eq_none_iff : hexEscape? text = none ↔ ¬ StartsCodePoint text := by
  rw [Option.eq_none_iff_forall_ne_some]
  constructor
  · intro h hstarts
    obtain ⟨n, digits, rest, hdigits, htext⟩ := hstarts
    obtain ⟨-, -, rfl⟩ := isHexadecimal_iff.mp hdigits
    exact h (digits, rest) (hexEscape?_eq_some_iff.mpr ⟨htext, hdigits⟩)
  · intro h pair hpair
    obtain ⟨htext, hdigits⟩ := hexEscape?_eq_some_iff.mp hpair
    exact h ⟨_, _, _, hdigits, htext⟩

theorem letterOf?_of_mem (h : (c, letter) ∈ escapes) : letterOf? c = some letter := by
  simp only [escapes, List.mem_cons, Prod.mk.injEq, List.not_mem_nil, or_false] at h
  rcases h with ⟨rfl, rfl⟩ | ⟨rfl, rfl⟩ | ⟨rfl, rfl⟩ | ⟨rfl, rfl⟩ | ⟨rfl, rfl⟩ | ⟨rfl, rfl⟩ |
    ⟨rfl, rfl⟩ <;> rfl

theorem mem_escapes_of_letterOf? (h : letterOf? c = some letter) : (c, letter) ∈ escapes := by
  obtain ⟨pair, hfind, rfl⟩ := Option.map_eq_some_iff.mp h
  obtain rfl : pair.1 = c := by simpa using List.find?_some hfind
  exact List.mem_of_find?_eq_some hfind

theorem mem_escapes_of_charOf? (h : charOf? letter = some c) : (c, letter) ∈ escapes := by
  obtain ⟨pair, hfind, rfl⟩ := Option.map_eq_some_iff.mp h
  obtain rfl : pair.2 = letter := by simpa using List.find?_some hfind
  exact List.mem_of_find?_eq_some hfind

theorem charOf?_eq_none_iff : charOf? letter = none ↔ ∀ c, (c, letter) ∉ escapes := by
  rw [Option.eq_none_iff_forall_ne_some]
  constructor
  · intro h c hmem
    exact h c (charOf?_of_letterOf? (letterOf?_of_mem hmem))
  · intro h c hc
    exact h c (mem_escapes_of_charOf? hc)

/-! ## One way to cut a body -/

theorem not_mem_escapes_u (c : Char) : (c, 'u') ∉ escapes := charOf?_eq_none_iff.mp rfl c

theorem eq_of_mem_escapes {c' : Char} (h : (c, letter) ∈ escapes) (h' : (c', letter) ∈ escapes) :
    c = c' :=
  Option.some.inj ((charOf?_of_letterOf? (letterOf?_of_mem h)).symm.trans
    (charOf?_of_letterOf? (letterOf?_of_mem h')))

/-- Where the digits end is seen from the text. -/
theorem eq_of_isHexadecimal {n' : Nat} {digits' rest' : List Char} (h : IsHexadecimal n digits)
    (h' : IsHexadecimal n' digits')
    (heq : digits ++ '\x7d' :: rest = digits' ++ '\x7d' :: rest') :
    n = n' ∧ digits = digits' ∧ rest = rest' := by
  obtain ⟨-, -, rfl⟩ := isHexadecimal_iff.mp h
  obtain ⟨-, -, rfl⟩ := isHexadecimal_iff.mp h'
  have hescape : hexEscape? ('u' :: '\x7b' :: (digits ++ '\x7d' :: rest)) = some (digits, rest) :=
    hexEscape?_eq_some_iff.mpr ⟨rfl, h⟩
  rw [heq, hexEscape?_eq_some_iff.mpr ⟨rfl, h'⟩] at hescape
  cases hescape
  exact ⟨rfl, rfl, rfl⟩

theorem Reads.unique {pieces pieces' : List Piece} (h : Reads body pieces)
    (h' : Reads body pieces') : pieces' = pieces := by
  induction h generalizing pieces' with
  | nil => cases h'; rfl
  | @plain c body pieces hquote hescape _ ih =>
    generalize htext : c :: body = text at h'
    cases h' with
    | nil => contradiction
    | plain _ _ hrest =>
      cases htext
      rw [ih hrest]
    | codePoint | escape | unknown => exact absurd (List.cons.inj htext).1 hescape
  | @codePoint n digits body pieces hdigits _ ih =>
    generalize htext : '\\' :: 'u' :: '\x7b' :: (digits ++ '\x7d' :: body) = text at h'
    cases h' with
    | nil => contradiction
    | plain _ hescape => exact absurd (List.cons.inj htext).1.symm hescape
    | codePoint hdigits' hrest =>
      simp only [List.cons.injEq, true_and] at htext
      obtain ⟨rfl, rfl, rfl⟩ := eq_of_isHexadecimal hdigits hdigits' htext
      rw [ih hrest]
    | escape hmem =>
      simp only [List.cons.injEq, true_and] at htext
      exact absurd (htext.1 ▸ hmem) (not_mem_escapes_u _)
    | unknown hcode => exact absurd ⟨n, digits, body, hdigits, (List.cons.inj htext).2.symm⟩ hcode
  | @escape letter c body pieces hmem _ ih =>
    generalize htext : '\\' :: letter :: body = text at h'
    cases h' with
    | nil => contradiction
    | plain _ hescape => exact absurd (List.cons.inj htext).1.symm hescape
    | codePoint =>
      simp only [List.cons.injEq, true_and] at htext
      exact absurd (htext.1 ▸ hmem) (not_mem_escapes_u _)
    | escape hmem' hrest =>
      cases htext
      rw [ih hrest, eq_of_mem_escapes hmem hmem']
    | unknown _ hletter =>
      cases htext
      exact absurd hmem (hletter c)
  | @unknown letter body pieces hcode hletter _ ih =>
    generalize htext : '\\' :: letter :: body = text at h'
    cases h' with
    | nil => contradiction
    | plain _ hescape => exact absurd (List.cons.inj htext).1.symm hescape
    | codePoint hdigits => exact absurd ⟨_, _, _, hdigits, (List.cons.inj htext).2⟩ hcode
    | escape hmem =>
      cases htext
      exact absurd hmem (hletter _)
    | unknown _ _ hrest =>
      cases htext
      rw [ih hrest]

/-! ## Decoding -/

theorem decode_codePoint (h : IsHexadecimal n digits) (rest : List Char) :
    decode ('\\' :: 'u' :: '\x7b' :: (digits ++ '\x7d' :: rest)) =
      (Piece.codePoint n digits).text ++ decode rest := by
  obtain ⟨-, -, rfl⟩ := isHexadecimal_iff.mp h
  have hhex : hexEscape? ('u' :: '\x7b' :: (digits ++ '\x7d' :: rest)) = some (digits, rest) :=
    hexEscape?_eq_some_iff.mpr ⟨rfl, h⟩
  have htext : hexText digits = (Piece.codePoint (hexValue digits) digits).text := by
    simp only [hexText, scalar?, Piece.text]
    split_ifs <;> rfl
  rw [decode, ← htext]
  split
  · rename_i hsome
    rw [hhex] at hsome
    cases hsome
    rfl
  · rename_i hnone
    rw [hhex] at hnone
    contradiction

theorem decode_unknown (hcode : ¬ StartsCodePoint (letter :: rest))
    (hletter : ∀ c, (c, letter) ∉ escapes) :
    decode ('\\' :: letter :: rest) = '\\' :: letter :: decode rest := by
  have hescape : letter ≠ '\\' := by
    rintro rfl
    exact hletter '\\' (by decide)
  rw [decode]
  split
  · rename_i hhex
    rw [hexEscape?_eq_none_iff.mpr hcode] at hhex
    contradiction
  · simp only [charOf?_eq_none_iff.mpr hletter, decode_plain hescape]

/-- A body is decoded piece by piece. -/
theorem Reads.decode_eq {pieces : List Piece} (h : Reads body pieces) :
    decode body = pieces.flatMap Piece.text := by
  induction h with
  | nil => rw [decode, List.flatMap_nil]
  | plain _ hescape _ ih => rw [decode_plain hescape, ih, List.flatMap_cons]; rfl
  | codePoint hdigits _ ih => rw [decode_codePoint hdigits, ih, List.flatMap_cons]
  | escape hmem _ ih => rw [decode_escape (letterOf?_of_mem hmem), ih, List.flatMap_cons]; rfl
  | unknown hcode hletter _ ih => rw [decode_unknown hcode hletter, ih, List.flatMap_cons]; rfl

/-! ## Bodies that a quote ends -/

/-- A quote behind the body ends it. -/
def IsBody (body : List Char) : Prop := splitBody? (body ++ ['"']) = some (body, [])

theorem IsBody.splitBody? (h : IsBody body) (rest : List Char) :
    splitBody? (body ++ '"' :: rest) = some (body, rest) :=
  splitBody?_of_splitBody? h rest

theorem isBody_of_splitBody? (h : splitBody? text = some (body, rest)) : IsBody body :=
  splitBody?_of_splitBody? h []

theorem isBody_nil : IsBody [] := rfl

theorem not_isBody_quote (rest : List Char) : ¬ IsBody ('"' :: rest) := by
  intro h
  simp [IsBody, StringLiteral.splitBody?] at h

theorem not_isBody_backslash : ¬ IsBody ['\\'] := by
  intro h
  simp [IsBody, StringLiteral.splitBody?] at h

theorem isBody_plain (hquote : c ≠ '"') (hescape : c ≠ '\\') :
    IsBody (c :: body) ↔ IsBody body := by
  rw [IsBody, IsBody, List.cons_append, splitBody?_plain hquote hescape]
  simp [Option.map_eq_some_iff]

theorem isBody_escape : IsBody ('\\' :: c :: body) ↔ IsBody body := by
  rw [IsBody, IsBody, List.cons_append, List.cons_append, splitBody?_escape]
  simp [Option.map_eq_some_iff]

/-- A code point escape hides no quote: its second character goes with the backslash,
and all others stand for themselves. -/
theorem isBody_codePoint (h : IsHexadecimal n digits) :
    IsBody ('\\' :: 'u' :: '\x7b' :: (digits ++ '\x7d' :: body)) ↔ IsBody body := by
  obtain ⟨-, hhex, -⟩ := isHexadecimal_iff.mp h
  rw [isBody_escape, isBody_plain (by decide) (by decide)]
  clear h
  induction digits with
  | nil => exact isBody_plain (by decide) (by decide)
  | cons d digits ih =>
    have hd : isHexDigit d = true := hhex d (by simp)
    have hquote : d ≠ '"' := by
      rintro rfl
      contradiction
    have hescape : d ≠ '\\' := by
      rintro rfl
      contradiction
    rw [List.cons_append, isBody_plain hquote hescape,
      ih fun c hc => hhex c (List.mem_cons_of_mem _ hc)]

theorem Reads.isBody {pieces : List Piece} (h : Reads body pieces) : IsBody body := by
  induction h with
  | nil => exact isBody_nil
  | plain hquote hescape _ ih => exact (isBody_plain hquote hescape).mpr ih
  | codePoint hdigits _ ih => exact (isBody_codePoint hdigits).mpr ih
  | escape _ _ ih | unknown _ _ _ ih => exact isBody_escape.mpr ih

theorem IsBody.exists_reads {body : List Char} (h : IsBody body) : ∃ pieces, Reads body pieces := by
  induction hlength : body.length using Nat.strongRecOn generalizing body with
  | ind n ih =>
    subst hlength
    cases body with
    | nil => exact ⟨[], .nil⟩
    | cons c body =>
      by_cases hescape : c = '\\'
      · subst hescape
        cases body with
        | nil => exact absurd h not_isBody_backslash
        | cons letter body =>
          by_cases hcode : StartsCodePoint (letter :: body)
          · obtain ⟨n, digits, rest, hdigits, htext⟩ := hcode
            rw [htext] at h ih ⊢
            have hlt : rest.length <
                ('\\' :: 'u' :: '\x7b' :: (digits ++ '\x7d' :: rest)).length := by
              simp only [List.length_cons, List.length_append]
              omega
            obtain ⟨pieces, hpieces⟩ := ih _ hlt ((isBody_codePoint hdigits).mp h) rfl
            exact ⟨_, .codePoint hdigits hpieces⟩
          · have hlt : body.length < ('\\' :: letter :: body).length := by
              simp only [List.length_cons]
              omega
            obtain ⟨pieces, hpieces⟩ := ih _ hlt (isBody_escape.mp h) rfl
            cases hletter : charOf? letter with
            | some c => exact ⟨_, .escape (mem_escapes_of_charOf? hletter) hpieces⟩
            | none => exact ⟨_, .unknown hcode (charOf?_eq_none_iff.mp hletter) hpieces⟩
      · by_cases hquote : c = '"'
        · subst hquote
          exact absurd h (not_isBody_quote body)
        · have hlt := Nat.lt_succ_self body.length
          obtain ⟨pieces, hpieces⟩ := ih _ hlt ((isBody_plain hquote hescape).mp h) rfl
          exact ⟨_, .plain hquote hescape hpieces⟩

/-! ## Spellings -/

/-- The bodies that a text may be written as. A character is written as it is unless it
is a quote or a backslash, as an escape of the table if it has one, or as any form of
its code point. -/
inductive Spelling : List Char → List Char → Prop
  | nil : Spelling [] []
  | raw {c : Char} {text body : List Char} : c ≠ '"' → c ≠ '\\' →
      Spelling text body → Spelling (c :: text) (c :: body)
  | escape {c letter : Char} {text body : List Char} : (c, letter) ∈ escapes →
      Spelling text body → Spelling (c :: text) ('\\' :: letter :: body)
  | codePoint {c : Char} {digits text body : List Char} : IsHexadecimal c.toNat digits →
      Spelling text body →
      Spelling (c :: text) ('\\' :: 'u' :: '\x7b' :: (digits ++ '\x7d' :: body))

theorem Piece.text_codePoint (c : Char) (digits : List Char) :
    (Piece.codePoint c.toNat digits).text = [c] := by
  have hvalid : c.toNat.isValidChar := c.valid
  rw [Piece.text, if_pos hvalid, Char.ofNat_toNat]

/-- Every piece of a spelling is a character of the text. -/
theorem Spelling.exists_reads {text body : List Char} (h : Spelling text body) :
    ∃ pieces, Reads body pieces ∧ pieces.flatMap Piece.text = text := by
  induction h with
  | nil => exact ⟨[], .nil, rfl⟩
  | raw hquote hescape _ ih =>
    obtain ⟨pieces, hreads, rfl⟩ := ih
    exact ⟨_, .plain hquote hescape hreads, rfl⟩
  | escape hmem _ ih =>
    obtain ⟨pieces, hreads, rfl⟩ := ih
    exact ⟨_, .escape hmem hreads, rfl⟩
  | codePoint hdigits _ ih =>
    obtain ⟨pieces, hreads, rfl⟩ := ih
    exact ⟨_, .codePoint hdigits hreads, by rw [List.flatMap_cons, Piece.text_codePoint]; rfl⟩

theorem Spelling.splitBody? {text body : List Char} (h : Spelling text body) (rest : List Char) :
    splitBody? (body ++ '"' :: rest) = some (body, rest) := by
  obtain ⟨pieces, hreads, -⟩ := h.exists_reads
  exact hreads.isBody.splitBody? rest

theorem Spelling.decode_eq {text body : List Char} (h : Spelling text body) :
    decode body = text := by
  obtain ⟨pieces, hreads, rfl⟩ := h.exists_reads
  exact hreads.decode_eq

/-- A run of characters may stand as it is. -/
theorem Spelling.raw_append {run text body : List Char} (hrun : ∀ c ∈ run, c ≠ '"' ∧ c ≠ '\\')
    (h : Spelling text body) : Spelling (run ++ text) (run ++ body) := by
  induction run with
  | nil => exact h
  | cons c run ih =>
    obtain ⟨⟨hquote, hescape⟩, hrun⟩ := List.forall_mem_cons.mp hrun
    exact .raw hquote hescape (ih hrun)

/-- What a writer puts between the quotes is one of the spellings. -/
theorem spelling_body (text : List Char) : Spelling text (StringLiteral.body text) := by
  induction text with
  | nil => exact .nil
  | cons c text ih =>
    rw [body_cons]
    rcases encodeChar_cases c with ⟨letter, hletter, hc⟩ | ⟨hquote, hescape, hc⟩
    · rw [hc]
      exact .escape (mem_escapes_of_letterOf? hletter) ih
    · rw [hc]
      exact .raw hquote hescape ih

end SExpr.StringLiteral
