import SExpr.Proofs.Bracket.Reachable
import SExpr.Readtable

/-! # Roles under a well-formed table

With a table that registering leads to, a character has the role that its place
in the table or its meaning gives it, unless it is the comment character. -/

namespace SExpr

namespace Readtable

variable {rt : Readtable} {k : Bracket} {c : Char}

theorem not_isBlank_of_not_isReserved (h : isReserved c = false) : isBlank c = false :=
  Bool.eq_false_iff.mpr fun hb => by rw [isReserved_of_isBlank hb] at h; contradiction

theorem ne_semicolon_of_not_isReserved (h : isReserved c = false) : c ≠ ';' := by
  intro he
  rw [he] at h
  contradiction

theorem role_blank (h : isBlank c = true) : rt.role c = .blank := if_pos h

theorem role_comment (h : isBlank rt.comment = false) : rt.role rt.comment = .comment := by
  simp [role, h]

theorem isBlank_of_role (h : rt.role c = .blank) : isBlank c = true := by
  unfold role at h
  grind

theorem comment_of_role (h : rt.role c = .comment) : isBlank c = false ∧ c = rt.comment := by
  unfold role at h
  grind

section Lookup
variable (hblank : isBlank c = false) (hcomment : c ≠ rt.comment)
include hblank hcomment

theorem role_of_opener? (h : rt.brackets.opener? c = some k) : rt.role c = .opening k := by
  simp [role, hblank, hcomment, h]

theorem role_of_closer? (hnone : rt.brackets.opener? c = none)
    (h : rt.brackets.closer? c = some k) : rt.role c = .closing k := by
  simp [role, hblank, hcomment, hnone, h]

theorem role_of_not_isDelimiter (h : rt.brackets.isDelimiter c = false) :
    rt.role c = if c = '\'' then .apostrophe else if c = '"' then .quote else .constituent := by
  simp only [BracketTable.isDelimiter, Bool.or_eq_false_iff, Option.isSome_eq_false_iff,
    Option.isNone_iff_eq_none] at h
  simp [role, hblank, hcomment, h.1, h.2]

end Lookup

theorem mem_kinds_of_role (h : rt.role c = .opening k) : k ∈ rt.brackets.kinds := by
  have hopener : rt.brackets.opener? c = some k := by
    unfold role at h
    grind
  exact (BracketTable.mem_of_opener? hopener).1

theorem opener_of_role (h : rt.role c = .opening k) : k.opener = c := by
  have hopener : rt.brackets.opener? c = some k := by
    unfold role at h
    grind
  exact (BracketTable.mem_of_opener? hopener).2

theorem closer_of_role (h : rt.role c = .closing k) : k ∈ rt.brackets.kinds ∧ k.closer = c := by
  have hcloser : rt.brackets.closer? c = some k := by
    unfold role at h
    grind
  exact BracketTable.mem_of_closer? hcloser

theorem eq_of_role_apostrophe (h : rt.role c = .apostrophe) : c = '\'' := by
  unfold role at h
  grind

theorem eq_of_role_quote (h : rt.role c = .quote) : c = '"' := by
  unfold role at h
  grind

section WellFormed
variable (h : rt.brackets.WellFormed)
include h

theorem role_opener (hk : k ∈ rt.brackets.kinds) (hcomment : k.opener ≠ rt.comment) :
    rt.role k.opener = .opening k := by
  have hfree := h.not_reserved k hk k.opener (by simp)
  exact role_of_opener? (not_isBlank_of_not_isReserved hfree) hcomment (h.opener?_opener hk)

theorem role_closer (hk : k ∈ rt.brackets.kinds) (hcomment : k.closer ≠ rt.comment) :
    rt.role k.closer = .closing k := by
  have hfree := h.not_reserved k hk k.closer (by simp)
  exact role_of_closer? (not_isBlank_of_not_isReserved hfree) hcomment (h.opener?_closer hk)
    (h.closer?_closer hk)

theorem role_apostrophe (hcomment : '\'' ≠ rt.comment) : rt.role '\'' = .apostrophe :=
  role_of_not_isDelimiter (by decide) hcomment (h.isDelimiter_of_isReserved (by decide))

theorem role_quote (hcomment : '"' ≠ rt.comment) : rt.role '"' = .quote :=
  role_of_not_isDelimiter (by decide) hcomment (h.isDelimiter_of_isReserved (by decide))

theorem role_backslash (hcomment : '\\' ≠ rt.comment) : rt.role '\\' = .constituent :=
  role_of_not_isDelimiter (by decide) hcomment (h.isDelimiter_of_isReserved (by decide))

end WellFormed

/-- The table is one that registering leads to, and no character that begins or
ends a token is the comment character. -/
structure WellFormed (rt : Readtable) : Prop where
  brackets : rt.brackets.WellFormed
  comment_free : rt.brackets.isDelimiter rt.comment = false
  apostrophe_ne : '\'' ≠ rt.comment
  quote_ne : '"' ≠ rt.comment
  backslash_ne : '\\' ≠ rt.comment

theorem WellFormed.ne_comment (h : rt.WellFormed) (hk : k ∈ rt.brackets.kinds)
    (hc : c ∈ k.chars) : c ≠ rt.comment := by
  intro he
  have hd := BracketTable.isDelimiter_iff.mpr ⟨k, hk, hc⟩
  rw [he, h.comment_free] at hd
  contradiction

/-- A character without a meaning of its own that is not the comment character
opens or closes a kind, or is part of an atom. -/
theorem role_cases (hreserved : isReserved c = false) (hcomment : c ≠ rt.comment) :
    rt.brackets.isDelimiter c = true ∧
        ((∃ kind, rt.role c = .opening kind) ∨ ∃ kind, rt.role c = .closing kind) ∨
      rt.brackets.isDelimiter c = false ∧ rt.role c = .constituent := by
  have hblank := not_isBlank_of_not_isReserved hreserved
  cases hdelimiter : rt.brackets.isDelimiter c with
  | false =>
    have hapostrophe : c ≠ '\'' := by
      intro he
      rw [he] at hreserved
      contradiction
    have hquote : c ≠ '"' := by
      intro he
      rw [he] at hreserved
      contradiction
    refine .inr ⟨rfl, ?_⟩
    rw [role_of_not_isDelimiter hblank hcomment hdelimiter, if_neg hapostrophe, if_neg hquote]
  | true =>
    refine .inl ⟨rfl, ?_⟩
    cases ho : rt.brackets.opener? c with
    | some kind => exact .inl ⟨kind, role_of_opener? hblank hcomment ho⟩
    | none =>
      rw [BracketTable.isDelimiter, ho, Option.isSome_none, Bool.false_or,
        Option.isSome_iff_exists] at hdelimiter
      obtain ⟨kind, hkind⟩ := hdelimiter
      exact .inr ⟨kind, role_of_closer? hblank hcomment ho hkind⟩

theorem endsAtom_of_role {role : Role} (h : rt.role c = role) (hne : role ≠ .constituent) :
    rt.endsAtom c = true := by
  simpa [endsAtom, h] using hne

theorem endsAtom_constituent (h : rt.role c = .constituent) : rt.endsAtom c = false := by
  simp [endsAtom, h]

end Readtable

/-- No bracket is a semicolon, so it is always free to start comments. -/
theorem BracketTable.WellFormed.readtable {t : BracketTable} (h : t.WellFormed) :
    (⟨t, ';'⟩ : Readtable).WellFormed := by
  have hfree : t.isDelimiter ';' = false := h.isDelimiter_of_isReserved rfl
  exact ⟨h, hfree, (by decide : '\'' ≠ ';'), (by decide : '"' ≠ ';'), (by decide : '\\' ≠ ';')⟩

end SExpr
