import SExpr.Proofs.Bracket.Maps
import SExpr.Proofs.Readtable

/-! # Tables with more kinds

Registering never takes a kind away. So a table that more kinds were offered to finds
what the earlier one finds, except under the characters that it gained, and these had
no role of their own before: to the earlier table they are parts of atoms. -/

namespace SExpr

namespace BracketTable

/-- Whether the later table `t'` takes a character for a bracket that `t` does not. -/
def gains (t t' : BracketTable) (c : Char) : Bool := t'.isDelimiter c && !t.isDelimiter c

/-- The table `t'` holds the kinds of `t`, and no character is used twice in either. -/
structure Extends (t t' : BracketTable) : Prop where
  earlier : t.WellFormed
  later : t'.WellFormed
  subset : t.kinds ⊆ t'.kinds

variable {t t' : BracketTable} {k : Bracket} {c : Char}

theorem WellFormed.extends_offerAll (h : t.WellFormed) (more : List Bracket) :
    t.Extends (t.offerAll more) :=
  ⟨h, h.offerAll more, fun k hk => (mem_offerAll_iff more k).mpr (.inl hk)⟩

theorem isDelimiter_eq_false_iff :
    t.isDelimiter c = false ↔ t.opener? c = none ∧ t.closer? c = none := by
  simp [isDelimiter]

theorem gains_eq_false_iff :
    t.gains t' c = false ↔ t'.isDelimiter c = true → t.isDelimiter c = true := by
  cases hlater : t'.isDelimiter c <;> simp [gains, hlater]

namespace Extends

variable (h : t.Extends t')
include h

/-- A reserved character is no bracket in any table. -/
theorem gains_of_isReserved (hc : isReserved c = true) : t.gains t' c = false := by
  rw [gains, h.later.isDelimiter_of_isReserved hc, Bool.false_and]

theorem contains (hk : t.contains k = true) : t'.contains k = true :=
  h.later.contains_iff.mpr (h.subset (h.earlier.contains_iff.mp hk))

theorem isDelimiter (hc : t.isDelimiter c = true) : t'.isDelimiter c = true := by
  obtain ⟨k, hk, hc⟩ := isDelimiter_iff.mp hc
  exact isDelimiter_iff.mpr ⟨k, h.subset hk, hc⟩

theorem isDelimiter_eq (hc : t.gains t' c = false) : t'.isDelimiter c = t.isDelimiter c := by
  cases hearlier : t.isDelimiter c with
  | true => exact h.isDelimiter hearlier
  | false =>
    rw [Bool.eq_false_iff]
    intro hlater
    rw [gains_eq_false_iff.mp hc hlater] at hearlier
    contradiction

theorem opener?_eq (hc : t.gains t' c = false) : t'.opener? c = t.opener? c := by
  cases ho : t.opener? c with
  | some k =>
    obtain ⟨hk, rfl⟩ := mem_of_opener? ho
    exact h.later.opener?_opener (h.subset hk)
  | none =>
    cases hcloser : t.closer? c with
    | some k =>
      obtain ⟨hk, rfl⟩ := mem_of_closer? hcloser
      exact h.later.opener?_closer (h.subset hk)
    | none =>
      have hfree := isDelimiter_eq_false_iff.mpr ⟨ho, hcloser⟩
      exact (isDelimiter_eq_false_iff.mp ((h.isDelimiter_eq hc).trans hfree)).1

theorem closer?_eq (hc : t.gains t' c = false) : t'.closer? c = t.closer? c := by
  cases hcloser : t.closer? c with
  | some k =>
    obtain ⟨hk, rfl⟩ := mem_of_closer? hcloser
    exact h.later.closer?_closer (h.subset hk)
  | none =>
    cases ho : t.opener? c with
    | some k =>
      obtain ⟨hk, rfl⟩ := mem_of_opener? ho
      rw [closer?_eq_none_iff]
      exact fun j hj he => h.later.opener_ne_closer (h.subset hk) hj he.symm
    | none =>
      have hfree := isDelimiter_eq_false_iff.mpr ⟨ho, hcloser⟩
      exact (isDelimiter_eq_false_iff.mp ((h.isDelimiter_eq hc).trans hfree)).2

end Extends
end BracketTable

/-! ## Roles -/

namespace BracketTable.Extends

variable {t t' : BracketTable} {c : Char} (h : t.Extends t') (comment : Char)
include h

theorem role_eq (hc : t.gains t' c = false) :
    (⟨t', comment⟩ : Readtable).role c = (⟨t, comment⟩ : Readtable).role c := by
  unfold Readtable.role
  rw [h.opener?_eq hc, h.closer?_eq hc]

theorem endsAtom_eq (hc : t.gains t' c = false) :
    (⟨t', comment⟩ : Readtable).endsAtom c = (⟨t, comment⟩ : Readtable).endsAtom c := by
  rw [Readtable.endsAtom, Readtable.endsAtom, h.role_eq comment hc]

theorem mustEscape_eq (hc : t.gains t' c = false) :
    (⟨t', comment⟩ : Readtable).mustEscape c = (⟨t, comment⟩ : Readtable).mustEscape c := by
  rw [Readtable.mustEscape, Readtable.mustEscape, h.isDelimiter_eq hc]

/-- A bracket that was gained starts comments under both tables, or was part of an
atom. -/
theorem role_of_gains (hc : t.gains t' c = true) :
    (⟨t', comment⟩ : Readtable).role c = .comment ∧
        (⟨t, comment⟩ : Readtable).role c = .comment ∨
      ((∃ k, (⟨t', comment⟩ : Readtable).role c = .opening k) ∨
          ∃ k, (⟨t', comment⟩ : Readtable).role c = .closing k) ∧
        (⟨t, comment⟩ : Readtable).role c = .constituent := by
  obtain ⟨hlater, hearlier⟩ : t'.isDelimiter c = true ∧ t.isDelimiter c = false := by
    simpa [gains] using hc
  have hreserved : isReserved c = false := by
    rw [Bool.eq_false_iff]
    intro hreserved
    rw [h.gains_of_isReserved hreserved] at hc
    contradiction
  by_cases hcomment : c = comment
  · subst hcomment
    have hblank := Readtable.not_isBlank_of_not_isReserved hreserved
    exact .inl ⟨Readtable.role_comment hblank, Readtable.role_comment hblank⟩
  · refine .inr ⟨?_, ?_⟩
    · rcases @Readtable.role_cases ⟨t', comment⟩ _ hreserved hcomment with
        ⟨-, hrole⟩ | ⟨hfree, -⟩
      · exact hrole
      · rw [hlater] at hfree
        contradiction
    · rcases @Readtable.role_cases ⟨t, comment⟩ _ hreserved hcomment with
        ⟨hused, -⟩ | ⟨-, hrole⟩
      · rw [hearlier] at hused
        contradiction
      · exact hrole

/-- What ends an atom still ends it. -/
theorem endsAtom (hc : (⟨t, comment⟩ : Readtable).endsAtom c = true) :
    (⟨t', comment⟩ : Readtable).endsAtom c = true := by
  rw [Readtable.endsAtom_iff] at hc ⊢
  exact hc.imp_right (Or.imp_right (Or.imp_left h.isDelimiter))

end BracketTable.Extends
end SExpr
