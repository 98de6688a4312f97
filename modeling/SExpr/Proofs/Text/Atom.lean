import SExpr.Text.Atom

/-! # Symbols read back

A backslash may stand before any character of a symbol. However the text is spelled,
the spelling is split off up to a character that ends an atom and stands for the text.
What `encode` writes is one of the spellings, also for a reader with fewer brackets,
and has a backslash if the text alone would be read as a number. All that is asked of
the comment character is that it is not the backslash: every other one is escaped where
it occurs. -/

namespace SExpr.Atom

variable {rt : Readtable}

/-- Induction over a text as atoms are read: a backslash goes together with the
character after it, and stands alone only at the very end. -/
@[elab_as_elim]
theorem escape_induction {motive : List Char → Prop} (nil : motive []) (lone : motive ['\\'])
    (escape : ∀ c rest, motive rest → motive ('\\' :: c :: rest))
    (plain : ∀ c rest, c ≠ '\\' → motive rest → motive (c :: rest)) :
    ∀ text, motive text
  | [] => nil
  | c :: rest => by
    by_cases hc : c = '\\'
    · subst hc
      cases rest with
      | nil => exact lone
      | cons d rest => exact escape d rest (escape_induction nil lone escape plain rest)
    · exact plain c rest hc (escape_induction nil lone escape plain rest)

/-- An atom is over here: at the end of the text or at a character that ends it. -/
def Stops (rt : Readtable) : List Char → Prop
  | [] => True
  | c :: _ => rt.endsAtom c = true ∧ c ≠ '\\'

theorem Stops.append {rest more : List Char} (h : Stops rt rest) (hmore : Stops rt more) :
    Stops rt (rest ++ more) := by
  cases rest with
  | nil => exact hmore
  | cons c rest => exact h

theorem split_stops {rest : List Char} (h : Stops rt rest) : split rt rest = ([], rest) := by
  cases rest with
  | nil => rfl
  | cons c rest =>
    obtain ⟨hends, hescape⟩ := h
    rw [split.eq_def]
    split
    · contradiction
    · rename_i heq
      exact absurd (List.cons.inj heq).1 hescape
    · rename_i heq
      exact absurd (List.cons.inj heq).1 hescape
    · rename_i heq
      obtain ⟨rfl, rfl⟩ := List.cons.inj heq
      rw [if_pos hends]

theorem split_escape (c : Char) (rest : List Char) :
    split rt ('\\' :: c :: rest) = ('\\' :: c :: (split rt rest).1, (split rt rest).2) := by
  rw [split]

theorem split_constituent {c : Char} (hends : rt.endsAtom c = false) (hescape : c ≠ '\\')
    (rest : List Char) : split rt (c :: rest) = (c :: (split rt rest).1, (split rt rest).2) := by
  rw [split.eq_def]
  split
  · contradiction
  · rename_i heq
    exact absurd (List.cons.inj heq).1 hescape
  · rename_i heq
    exact absurd (List.cons.inj heq).1 hescape
  · rename_i heq
    obtain ⟨rfl, rfl⟩ := List.cons.inj heq
    rw [if_neg (by simp [hends])]

theorem decode_escape (c : Char) (rest : List Char) :
    decode ('\\' :: c :: rest) = c :: decode rest := by
  rw [decode]

theorem decode_constituent {c : Char} (hescape : c ≠ '\\') (rest : List Char) :
    decode (c :: rest) = c :: decode rest := by
  rw [decode.eq_def]
  split
  · contradiction
  · rename_i heq
    exact absurd (List.cons.inj heq).1 hescape
  · rename_i heq
    exact absurd (List.cons.inj heq).1 hescape
  · rename_i heq
    obtain ⟨rfl, rfl⟩ := List.cons.inj heq
    rfl

theorem decode_ne_nil {raw : List Char} (h : raw ≠ []) : decode raw ≠ [] := by
  fun_cases decode raw <;> simp_all

/-! ## Atoms in other texts -/

/-- Whether the last backslash of a written atom has no character to take. -/
def dangles : List Char → Bool
  | [] => false
  | ['\\'] => true
  | '\\' :: _ :: rest => dangles rest
  | _ :: rest => dangles rest

theorem dangles_constituent {c : Char} (hescape : c ≠ '\\') (rest : List Char) :
    dangles (c :: rest) = dangles rest := by
  rw [dangles]
  · exact fun hc _ => hescape hc
  · exact fun _ _ hc _ => hescape hc

/-- An atom is over where the text after it begins. -/
theorem stops_split (rt : Readtable) (text : List Char) : Stops rt (split rt text).2 := by
  induction text using escape_induction with
  | nil | lone => trivial
  | escape c rest ih =>
    rw [split_escape]
    exact ih
  | plain c rest hescape ih =>
    cases hends : rt.endsAtom c with
    | true =>
      have hstops : Stops rt (c :: rest) := ⟨hends, hescape⟩
      rw [split_stops hstops]
      exact hstops
    | false =>
      rw [split_constituent hends hescape]
      exact ih

/-- Only the end of the text leaves a backslash without a character. -/
theorem split_eq_nil_of_dangles {text : List Char} (h : dangles (split rt text).1 = true) :
    (split rt text).2 = [] := by
  induction text using escape_induction with
  | nil | lone => rfl
  | escape c rest ih =>
    rw [split_escape] at h ⊢
    exact ih h
  | plain c rest hescape ih =>
    cases hends : rt.endsAtom c with
    | true =>
      have hstops : Stops rt (c :: rest) := ⟨hends, hescape⟩
      rw [split_stops hstops] at h
      contradiction
    | false =>
      rw [split_constituent hends hescape] at h ⊢
      exact ih ((dangles_constituent hescape _).symm.trans h)

/-- What was split off as an atom is split off before any other text at which it is
over. A dangling backslash would take the first character of that text. -/
theorem split_split (text : List Char) {rest : List Char} (hstop : Stops rt rest)
    (hend : dangles (split rt text).1 = true → rest = []) :
    split rt ((split rt text).1 ++ rest) = ((split rt text).1, rest) := by
  induction text using escape_induction with
  | nil => exact split_stops hstop
  | lone =>
    rw [hend rfl]
    rfl
  | escape c tail ih =>
    rw [split_escape] at hend ⊢
    rw [List.cons_append, List.cons_append, split_escape, ih hend]
  | plain c tail hescape ih =>
    cases hends : rt.endsAtom c with
    | true =>
      have hstops : Stops rt (c :: tail) := ⟨hends, hescape⟩
      rw [split_stops hstops]
      exact split_stops hstop
    | false =>
      rw [split_constituent hends hescape] at hend ⊢
      rw [List.cons_append, split_constituent hends hescape,
        ih fun hd => hend ((dangles_constituent hescape _).trans hd)]

/-! ## Spellings -/

/-- The character is part of an atom without a backslash before it. -/
def IsBare (rt : Readtable) (c : Char) : Prop :=
  isBlank c = false ∧ c ≠ '"' ∧ c ≠ '\'' ∧ c ≠ '\\' ∧ c ≠ rt.comment ∧
    rt.brackets.isDelimiter c = false

theorem isBare_iff {c : Char} : IsBare rt c ↔ rt.endsAtom c = false ∧ c ≠ '\\' := by
  rw [Bool.eq_false_iff, Ne, Readtable.endsAtom_iff]
  simp only [IsBare, not_or, Bool.not_eq_true]
  constructor
  · intro h
    obtain ⟨hblank, hquote, hapostrophe, hescape, hcomment, hdelimiter⟩ := h
    exact ⟨⟨hblank, hcomment, hdelimiter, hapostrophe, hquote⟩, hescape⟩
  · intro h
    obtain ⟨⟨hblank, hcomment, hdelimiter, hapostrophe, hquote⟩, hescape⟩ := h
    exact ⟨hblank, hquote, hapostrophe, hescape, hcomment, hdelimiter⟩

/-- The ways to write the text of a symbol: any character with a backslash, those that
are part of an atom also without one. -/
inductive Spelling (rt : Readtable) : List Char → List Char → Prop
  | nil : Spelling rt [] []
  | escaped (c : Char) {text raw : List Char} : Spelling rt text raw →
      Spelling rt (c :: text) ('\\' :: c :: raw)
  | bare {c : Char} {text raw : List Char} : IsBare rt c → Spelling rt text raw →
      Spelling rt (c :: text) (c :: raw)

namespace Spelling

variable {text raw : List Char}

/-- An atom ends where its spelling does. -/
theorem split_eq (h : Spelling rt text raw) {rest : List Char} (hstop : Stops rt rest) :
    split rt (raw ++ rest) = (raw, rest) := by
  induction h with
  | nil => exact split_stops hstop
  | escaped c _ ih => rw [List.cons_append, List.cons_append, split_escape, ih]
  | bare hbare _ ih =>
    obtain ⟨hends, hescape⟩ := isBare_iff.mp hbare
    rw [List.cons_append, split_constituent hends hescape, ih]

theorem decode_eq (h : Spelling rt text raw) : decode raw = text := by
  induction h with
  | nil => rfl
  | escaped c _ ih => rw [decode_escape, ih]
  | bare hbare _ ih => rw [decode_constituent (isBare_iff.mp hbare).2, ih]

/-- A spelling starts with a backslash or with a character of an atom. -/
theorem exists_head (h : Spelling rt text raw) (hne : text ≠ []) :
    ∃ c tail, raw = c :: tail ∧ (c = '\\' ∨ rt.endsAtom c = false) := by
  cases h with
  | nil => contradiction
  | escaped c _ => exact ⟨_, _, rfl, .inl rfl⟩
  | bare hbare _ => exact ⟨_, _, rfl, .inr (isBare_iff.mp hbare).1⟩

end Spelling

theorem spelling_word {word : List Char} (hword : ∀ c ∈ word, IsBare rt c) :
    Spelling rt word word := by
  induction word with
  | nil => exact .nil
  | cons c word ih =>
    obtain ⟨hc, hword⟩ := List.forall_mem_cons.mp hword
    exact .bare hc (ih hword)

theorem isEscaped_eq (raw : List Char) : isEscaped raw = decide ('\\' ∈ raw) := by
  rw [isEscaped, List.contains_eq_mem]

theorem isEscaped_word {word : List Char} (hword : ∀ c ∈ word, c ≠ '\\') :
    isEscaped word = false := by
  rw [isEscaped_eq, decide_eq_false_iff_not]
  exact fun hmem => hword _ hmem rfl

/-! ## Written symbols -/

/-- A character that needs no escape neither ends an atom nor escapes. -/
theorem isBare_of_mustEscape {c : Char} (h : rt.mustEscape c = false) : IsBare rt c := by
  simp only [Readtable.mustEscape, isReserved, Bool.or_eq_false_iff, beq_eq_false_iff_ne] at h
  obtain ⟨⟨⟨⟨⟨⟨hblank, hquote⟩, hapostrophe⟩, hescape⟩, -⟩, hcomment⟩, hdelimiter⟩ := h
  exact ⟨hblank, hquote, hapostrophe, hescape, hcomment, hdelimiter⟩

/-- All characters, each escaped if it needs to be. -/
def plain (rt : Readtable) (text : List Char) : List Char := text.flatMap (encodeChar rt)

theorem encodeChar_cases (rt : Readtable) (c : Char) :
    encodeChar rt c = ['\\', c] ∨ encodeChar rt c = [c] ∧ rt.mustEscape c = false := by
  unfold encodeChar
  cases rt.mustEscape c <;> simp

theorem plain_cons (c : Char) (text : List Char) :
    plain rt (c :: text) = encodeChar rt c ++ plain rt text := rfl

theorem encode_cons (rt : Readtable) (c : Char) (rest : List Char) :
    encode rt (c :: rest) =
      if Number.isNumber (c :: rest) && !rt.mustEscape c then '\\' :: plain rt (c :: rest)
      else plain rt (c :: rest) := rfl

/-- A symbol is written as it is, character by character, or with a backslash
before a first character that needs none, and then its text is a number. -/
theorem encode_cases (rt : Readtable) (text : List Char) :
    encode rt text = plain rt text ∧
        (Number.isNumber text = true → '\\' ∈ plain rt text ∨ text = []) ∨
      ∃ c rest, text = c :: rest ∧ rt.mustEscape c = false ∧
        encode rt text = '\\' :: c :: plain rt rest := by
  cases text with
  | nil => exact .inl ⟨rfl, fun _ => .inr rfl⟩
  | cons c rest =>
    cases hmust : rt.mustEscape c with
    | true =>
      refine .inl ⟨by simp [encode_cons, hmust], fun _ => .inl ?_⟩
      simp [plain_cons, encodeChar, hmust]
    | false =>
      cases hnumber : Number.isNumber (c :: rest) with
      | false => exact .inl ⟨by simp [encode_cons, hnumber], by simp⟩
      | true =>
        refine .inr ⟨c, rest, rfl, hmust, ?_⟩
        simp [encode_cons, hnumber, hmust, plain_cons, encodeChar]

/-- A writer for which more characters end an atom escapes more than it has to. What it
writes is a spelling all the same. -/
theorem spelling_plain {rt' : Readtable}
    (hends : ∀ c, rt.endsAtom c = true → rt'.endsAtom c = true) (text : List Char) :
    Spelling rt text (plain rt' text) := by
  induction text with
  | nil => exact .nil
  | cons c text ih =>
    rw [plain_cons]
    rcases encodeChar_cases rt' c with hc | ⟨hc, hfree⟩
    · rw [hc]
      exact .escaped c ih
    · obtain ⟨hlater, hescape⟩ := isBare_iff.mp (isBare_of_mustEscape hfree)
      have hearlier : rt.endsAtom c = false := by
        rw [Bool.eq_false_iff]
        intro h
        rw [hends c h] at hlater
        contradiction
      rw [hc]
      exact .bare (isBare_iff.mpr ⟨hearlier, hescape⟩) ih

theorem spelling_encode {rt' : Readtable}
    (hends : ∀ c, rt.endsAtom c = true → rt'.endsAtom c = true) (text : List Char) :
    Spelling rt text (encode rt' text) := by
  rcases encode_cases rt' text with ⟨he, -⟩ | ⟨c, rest, rfl, -, he⟩
  · rw [he]
    exact spelling_plain hends text
  · rw [he]
    exact .escaped c (spelling_plain hends rest)

/-- A text in which nothing has to be escaped is written as it is, unless it is a
number. -/
theorem isEscaped_encode_eq_false {text : List Char} (hfree : ∀ c ∈ text, rt.mustEscape c = false)
    (hnumber : Number.isNumber text = false) : isEscaped (encode rt text) = false := by
  have hplain : encode rt text = plain rt text := by
    cases text with
    | nil => rfl
    | cons c rest => simp [encode, plain, hnumber]
  rw [hplain, isEscaped_eq, decide_eq_false_iff_not]
  intro hmem
  obtain ⟨c, hc, hc'⟩ := List.mem_flatMap.mp hmem
  rw [encodeChar, if_neg (by simp [hfree c hc]), List.mem_singleton] at hc'
  obtain ⟨-, -, -, hescape, -, -⟩ := isBare_of_mustEscape (hfree c hc)
  exact hescape hc'.symm

/-- A symbol without a backslash is not taken for a number. -/
theorem isNumber_of_isEscaped_encode {text : List Char} (hne : text ≠ [])
    (h : isEscaped (encode rt text) = false) : Number.isNumber text = false := by
  rw [isEscaped_eq, decide_eq_false_iff_not] at h
  rcases encode_cases rt text with ⟨he, hnumber⟩ | ⟨c, rest, rfl, -, he⟩
  · rw [he] at h
    rw [Bool.eq_false_iff]
    exact fun hn => (hnumber hn).elim h hne
  · exact absurd (by simp [he]) h

end SExpr.Atom
