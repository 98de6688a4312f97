import Mathlib.Data.List.TakeWhile
import Mathlib.Tactic.SplitIfs
import SExpr.Proofs.Text.Atom
import SExpr.Proofs.Text.StringLiteral

/-! # The quote that ends a string

A reader pairs every backslash with the character after it, from the left. Seen from a
quote, this comes to the length of the run of backslashes directly before it: where the
run begins the character before is no backslash, so the run pairs off within itself, and
one backslash is left for the quote exactly if the length is odd. -/

namespace SExpr.StringLiteral

/-- How many backslashes a text ends with. -/
def backslashes (text : List Char) : Nat := (text.reverse.takeWhile (· == '\\')).length

/-- Behind `body` there is a quote that no backslash takes. -/
def FreeQuote (text body rest : List Char) : Prop :=
  text = body ++ '"' :: rest ∧ backslashes body % 2 = 0

/-- And it is the first one of the text. -/
def FirstFreeQuote (text body rest : List Char) : Prop :=
  FreeQuote text body rest ∧ ∀ body' rest', FreeQuote text body' rest' → body.length ≤ body'.length

variable {c : Char} {text body rest : List Char}

/-! ## Runs of backslashes -/

theorem backslashes_le_length (text : List Char) : backslashes text ≤ text.length := by
  have hle := (List.takeWhile_sublist (l := text.reverse) (· == '\\')).length_le
  rwa [List.length_reverse] at hle

/-- A character in front counts only if all others do. -/
theorem backslashes_cons (c : Char) (text : List Char) : backslashes (c :: text) =
    if backslashes text = text.length then text.length + (if c = '\\' then 1 else 0)
    else backslashes text := by
  have hall : (text.reverse.takeWhile (· == '\\')).length = text.reverse.length ↔
      backslashes text = text.length := by
    rw [List.length_reverse, backslashes]
  rw [backslashes, List.reverse_cons, List.takeWhile_append]
  simp only [hall]
  split
  · by_cases hc : c = '\\' <;> simp [hc]
  · rfl

theorem backslashes_plain (hescape : c ≠ '\\') (text : List Char) :
    backslashes (c :: text) = backslashes text := by
  rw [backslashes_cons, if_neg hescape]
  split_ifs <;> omega

/-- A pair in front makes no difference to whether the run is even. -/
theorem backslashes_pair (c : Char) (text : List Char) :
    backslashes ('\\' :: c :: text) % 2 = backslashes text % 2 := by
  have hle := backslashes_le_length text
  rw [backslashes_cons, if_pos (rfl : '\\' = '\\'), backslashes_cons, List.length_cons]
  split_ifs <;> omega

/-! ## Free quotes -/

theorem freeQuote_nil (rest : List Char) : FreeQuote ('"' :: rest) [] rest := ⟨rfl, rfl⟩

theorem not_freeQuote_nil : ¬ FreeQuote [] body rest := by
  intro h
  simp [FreeQuote] at h

/-- What is free in the rest of a text is free in the text, and the other way round. -/
theorem freeQuote_plain (hquote : c ≠ '"') (hescape : c ≠ '\\') :
    FreeQuote (c :: text) body rest ↔ ∃ tail, body = c :: tail ∧ FreeQuote text tail rest := by
  constructor
  · intro h
    obtain ⟨htext, heven⟩ := h
    cases body with
    | nil => exact absurd (List.cons.inj htext).1 hquote
    | cons d tail =>
      obtain ⟨rfl, rfl⟩ := List.cons.inj htext
      exact ⟨tail, rfl, rfl, by rwa [backslashes_plain hescape] at heven⟩
  · intro h
    obtain ⟨tail, rfl, rfl, heven⟩ := h
    exact ⟨rfl, by rwa [backslashes_plain hescape]⟩

theorem freeQuote_pair :
    FreeQuote ('\\' :: c :: text) body rest ↔
      ∃ tail, body = '\\' :: c :: tail ∧ FreeQuote text tail rest := by
  constructor
  · intro h
    obtain ⟨htext, heven⟩ := h
    match body with
    | [] => exact absurd (List.cons.inj htext).1 (by decide)
    | [d] =>
      obtain rfl : '\\' = d := (List.cons.inj htext).1
      contradiction
    | d :: e :: tail =>
      simp only [List.cons_append, List.cons.injEq] at htext
      obtain ⟨rfl, rfl, rfl⟩ := htext
      exact ⟨tail, rfl, rfl, by rwa [backslashes_pair] at heven⟩
  · intro h
    obtain ⟨tail, rfl, rfl, heven⟩ := h
    exact ⟨rfl, by rwa [backslashes_pair]⟩

/-! ## Where a body ends -/

/-- What ends a body is free. -/
theorem freeQuote_of_splitBody? (h : splitBody? text = some (body, rest)) :
    FreeQuote text body rest := by
  induction text using Atom.escape_induction generalizing body with
  | nil | lone => contradiction
  | escape c text ih =>
    rw [splitBody?_escape] at h
    obtain ⟨⟨tail, rest'⟩, htail, he⟩ := Option.map_eq_some_iff.mp h
    cases he
    exact freeQuote_pair.mpr ⟨tail, rfl, ih htail⟩
  | plain c text hescape ih =>
    by_cases hquote : c = '"'
    · subst hquote
      rw [splitBody?] at h
      cases h
      exact freeQuote_nil rest
    · rw [splitBody?_plain hquote hescape] at h
      obtain ⟨⟨tail, rest'⟩, htail, he⟩ := Option.map_eq_some_iff.mp h
      cases he
      exact (freeQuote_plain hquote hescape).mpr ⟨tail, rfl, ih htail⟩

/-- A body ends at a free quote at the latest. -/
theorem FreeQuote.exists_splitBody? (h : FreeQuote text body rest) :
    ∃ body' rest', splitBody? text = some (body', rest') ∧ body'.length ≤ body.length := by
  induction text using Atom.escape_induction generalizing body with
  | nil => exact absurd h not_freeQuote_nil
  | lone =>
    obtain ⟨htext, -⟩ := h
    cases body with
    | nil => exact absurd (List.cons.inj htext).1 (by decide)
    | cons d tail => simp at htext
  | escape c text ih =>
    obtain ⟨tail, rfl, htail⟩ := freeQuote_pair.mp h
    obtain ⟨body', rest', hbody, hle⟩ := ih htail
    refine ⟨'\\' :: c :: body', rest', ?_, by simpa using hle⟩
    rw [splitBody?_escape, hbody]
    rfl
  | plain c text hescape ih =>
    by_cases hquote : c = '"'
    · subst hquote
      exact ⟨[], text, by rw [splitBody?], Nat.zero_le _⟩
    · obtain ⟨tail, rfl, htail⟩ := (freeQuote_plain hquote hescape).mp h
      obtain ⟨body', rest', hbody, hle⟩ := ih htail
      refine ⟨c :: body', rest', ?_, by simpa using hle⟩
      rw [splitBody?_plain hquote hescape, hbody]
      rfl

/-- The body ends at the first free quote. -/
theorem splitBody?_eq_some_iff :
    splitBody? text = some (body, rest) ↔ FirstFreeQuote text body rest := by
  constructor
  · intro h
    refine ⟨freeQuote_of_splitBody? h, fun body' rest' hfree => ?_⟩
    obtain ⟨first, after, hfirst, hle⟩ := hfree.exists_splitBody?
    rw [h] at hfirst
    cases hfirst
    exact hle
  · intro h
    obtain ⟨hfree, hmin⟩ := h
    obtain ⟨first, after, hfirst, hle⟩ := hfree.exists_splitBody?
    have hfree' := freeQuote_of_splitBody? hfirst
    have hlength : first.length = body.length := Nat.le_antisymm hle (hmin first after hfree')
    obtain ⟨rfl, htail⟩ := List.append_inj (hfree'.1.symm.trans hfree.1) hlength
    obtain ⟨-, rfl⟩ := List.cons.inj htail
    exact hfirst

theorem splitBody?_eq_none_iff :
    splitBody? text = none ↔ ∀ body rest, ¬ FreeQuote text body rest := by
  constructor
  · intro h body rest hfree
    obtain ⟨body', rest', hsome, -⟩ := hfree.exists_splitBody?
    rw [h] at hsome
    contradiction
  · intro h
    rw [Option.eq_none_iff_forall_ne_some]
    exact fun p hp => h p.1 p.2 (freeQuote_of_splitBody? hp)

end SExpr.StringLiteral
