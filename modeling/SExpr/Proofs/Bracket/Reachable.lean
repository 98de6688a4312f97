import Mathlib.Data.List.Nodup
import Mathlib.Data.List.Pairwise
import SExpr.Bracket.Table

/-! # Tables that registering leads to

Whatever kinds are offered to the default table, in any order and however often,
no character serves two purposes: `WellFormed` holds at the start and every offer
keeps it. Lookups in such a table find exactly its kinds. -/

namespace SExpr

@[simp]
theorem Bracket.mem_chars {k : Bracket} {c : Char} :
    c ∈ k.chars ↔ c = k.opener ∨ c = k.closer := by
  simp [chars]

namespace BracketTable

/-- The tables that any history of offers leads to from the default one. -/
def Reachable (t : BracketTable) : Prop := ∃ history, default.offerAll history = t

/-- What all reachable tables have in common. -/
structure WellFormed (t : BracketTable) : Prop where
  parens_mem : .parens ∈ t.kinds
  square_mem : .square ∈ t.kinds
  not_reserved : ∀ k ∈ t.kinds, ∀ c ∈ k.chars, isReserved c = false
  /-- No character is used twice, be it as an opener or as a closer. -/
  nodup : (t.kinds.flatMap Bracket.chars).Nodup

variable {t t' : BracketTable} {k k' : Bracket} {c : Char}

/-! ## Lookups -/

theorem opener?_eq_none_iff : t.opener? c = none ↔ ∀ k ∈ t.kinds, k.opener ≠ c := by
  simp [opener?]

theorem closer?_eq_none_iff : t.closer? c = none ↔ ∀ k ∈ t.kinds, k.closer ≠ c := by
  simp [closer?]

theorem mem_of_opener? (h : t.opener? c = some k) : k ∈ t.kinds ∧ k.opener = c :=
  ⟨List.mem_of_find?_eq_some h, by simpa using List.find?_some h⟩

theorem mem_of_closer? (h : t.closer? c = some k) : k ∈ t.kinds ∧ k.closer = c :=
  ⟨List.mem_of_find?_eq_some h, by simpa using List.find?_some h⟩

theorem isDelimiter_iff : t.isDelimiter c = true ↔ ∃ k ∈ t.kinds, c ∈ k.chars := by
  simp only [isDelimiter, opener?, closer?, Bool.or_eq_true, List.find?_isSome, beq_iff_eq,
    Bracket.mem_chars]
  constructor
  · intro h
    rcases h with ⟨k, hk, rfl⟩ | ⟨k, hk, rfl⟩
    · exact ⟨k, hk, .inl rfl⟩
    · exact ⟨k, hk, .inr rfl⟩
  · intro h
    obtain ⟨k, hk, rfl | rfl⟩ := h
    · exact .inl ⟨k, hk, rfl⟩
    · exact .inr ⟨k, hk, rfl⟩

namespace WellFormed

/-- A character belongs to one kind at most. -/
theorem eq_of_mem_chars (h : t.WellFormed) (hk : k ∈ t.kinds) (hk' : k' ∈ t.kinds)
    (hc : c ∈ k.chars) (hc' : c ∈ k'.chars) : k = k' := by
  by_contra hne
  have hsymm : Std.Symm (Function.onFun List.Disjoint Bracket.chars) :=
    ⟨fun _ _ hd _ ha hb => hd hb ha⟩
  exact (List.nodup_flatMap.mp h.nodup).2.forall hk hk' hne hc hc'

theorem opener_ne_closer (h : t.WellFormed) (hk : k ∈ t.kinds) (hk' : k' ∈ t.kinds) :
    k.opener ≠ k'.closer := by
  intro he
  obtain rfl := h.eq_of_mem_chars hk hk' (c := k.opener) (by simp) (by simp [he])
  have hchars := (List.nodup_flatMap.mp h.nodup).1 k hk
  simp [Bracket.chars, he] at hchars

theorem opener?_opener (h : t.WellFormed) (hk : k ∈ t.kinds) : t.opener? k.opener = some k := by
  cases ho : t.opener? k.opener with
  | none => exact absurd rfl (opener?_eq_none_iff.mp ho k hk)
  | some k' =>
    obtain ⟨hk', he⟩ := mem_of_opener? ho
    rw [h.eq_of_mem_chars hk' hk (c := k.opener) (by simp [he]) (by simp)]

theorem closer?_closer (h : t.WellFormed) (hk : k ∈ t.kinds) : t.closer? k.closer = some k := by
  cases hc : t.closer? k.closer with
  | none => exact absurd rfl (closer?_eq_none_iff.mp hc k hk)
  | some k' =>
    obtain ⟨hk', he⟩ := mem_of_closer? hc
    rw [h.eq_of_mem_chars hk' hk (c := k.closer) (by simp [he]) (by simp)]

theorem opener?_closer (h : t.WellFormed) (hk : k ∈ t.kinds) : t.opener? k.closer = none :=
  opener?_eq_none_iff.mpr fun _ hk' => h.opener_ne_closer hk' hk

theorem contains_iff (h : t.WellFormed) : t.contains k = true ↔ k ∈ t.kinds := by
  simp only [contains, beq_iff_eq]
  exact ⟨fun ho => (mem_of_opener? ho).1, h.opener?_opener⟩

/-- A character with a meaning of its own is no bracket. -/
theorem isDelimiter_of_isReserved (h : t.WellFormed) (hc : isReserved c = true) :
    t.isDelimiter c = false := by
  rw [Bool.eq_false_iff, Ne, isDelimiter_iff]
  intro hexists
  obtain ⟨k, hk, hmem⟩ := hexists
  rw [h.not_reserved k hk c hmem] at hc
  contradiction

end WellFormed

/-! ## Offers -/

theorem insertByOpener_perm (k : Bracket) (kinds : List Bracket) :
    (insertByOpener k kinds).Perm (k :: kinds) := by
  induction kinds with
  | nil => exact .refl _
  | cons a rest ih =>
    simp only [insertByOpener]
    split
    · exact .refl _
    · exact (ih.cons a).trans (.swap k a rest)

/-- A kind that is taken is either known, or new with free characters. -/
theorem register_eq_ok (h : t.register k = .ok t') :
    t' = t ∧ k ∈ t.kinds ∨ k.opener ≠ k.closer ∧
      (∀ c ∈ k.chars, isReserved c = false ∧ t.isDelimiter c = false) ∧
      t' = ⟨insertByOpener k t.kinds⟩ := by
  unfold register at h
  split at h
  · contradiction
  rename_i hne
  split at h
  · contradiction
  rename_i hopener
  split at h
  · contradiction
  rename_i hcloser
  split at h
  · rename_i hknown
    split at h
    · rename_i hk
      exact .inl ⟨(Except.ok.inj h).symm, hk ▸ (mem_of_opener? hknown).1⟩
    · contradiction
  · rename_i hnone
    split at h
    · contradiction
    rename_i hfree
    split at h
    · contradiction
    rename_i hfree'
    refine .inr ⟨hne, ?_, (Except.ok.inj h).symm⟩
    intro c hc
    rcases Bracket.mem_chars.mp hc with rfl | rfl
    · exact ⟨Bool.eq_false_iff.mpr hopener, by simpa [isDelimiter, hnone] using hfree⟩
    · exact ⟨Bool.eq_false_iff.mpr hcloser, Bool.eq_false_iff.mpr hfree'⟩

theorem WellFormed.register (h : t.WellFormed) (hr : t.register k = .ok t') : t'.WellFormed := by
  rcases register_eq_ok hr with ⟨rfl, -⟩ | ⟨hne, hfree, rfl⟩
  · exact h
  have hmem : ∀ a, a ∈ insertByOpener k t.kinds ↔ a = k ∨ a ∈ t.kinds :=
    fun a => mem_insertByOpener
  refine ⟨(hmem _).mpr (.inr h.parens_mem), (hmem _).mpr (.inr h.square_mem), ?_, ?_⟩
  · intro a ha c hc
    rcases (hmem a).mp ha with rfl | ha
    · exact (hfree c hc).1
    · exact h.not_reserved a ha c hc
  · have hperm := (insertByOpener_perm k t.kinds).flatMap_right Bracket.chars
    rw [hperm.nodup_iff, List.flatMap_cons, List.nodup_append]
    refine ⟨by simpa [Bracket.chars] using hne, h.nodup, ?_⟩
    intro c hc d hd he
    have hdelimiter := (isDelimiter_iff (t := t)).mpr (List.mem_flatMap.mp hd)
    rw [← he, (hfree c hc).2] at hdelimiter
    contradiction

theorem WellFormed.offer (h : t.WellFormed) (k : Bracket) : (t.offer k).WellFormed := by
  unfold BracketTable.offer
  split
  · rename_i hr
    exact h.register hr
  · exact h

theorem wellFormed_default : default.WellFormed := by
  refine ⟨by simp [default], by simp [default], ?_, by decide⟩
  intro k hk c hc
  simp only [default, List.mem_cons, List.not_mem_nil, or_false] at hk
  rcases hk with rfl | rfl <;>
  · rcases Bracket.mem_chars.mp hc with rfl | rfl <;> rfl

theorem WellFormed.offerAll (h : t.WellFormed) (kinds : List Bracket) :
    (t.offerAll kinds).WellFormed := by
  induction kinds generalizing t with
  | nil => exact h
  | cons k rest ih => exact ih (h.offer k)

theorem Reachable.wellFormed (h : t.Reachable) : t.WellFormed := by
  obtain ⟨history, rfl⟩ := h
  exact wellFormed_default.offerAll history

end BracketTable
end SExpr
