import Mathlib.Data.List.Sort
import SExpr.Proofs.Bracket.Maps
import SExpr.Proofs.Except

/-! # Which kinds can be registered together

Registering looks at one kind and at what is there already. For a whole list of
kinds it comes to a rule without any order in it: each kind is proper, and any two
of them, the default kinds included, are the same or share no character. The table
does not show the order either, because it keeps its kinds sorted by opener. So all
lists with the same members are registered alike. -/

namespace SExpr

namespace Bracket

/-- The kind has two characters, and neither has a meaning of its own. -/
def Proper (k : Bracket) : Prop :=
  k.opener ≠ k.closer ∧ ∀ c ∈ k.chars, isReserved c = false

/-- Two kinds that one table can hold: no character of one is used by the other,
unless they are the same kind. -/
def Compatible (a b : Bracket) : Prop := a = b ∨ a.chars.Disjoint b.chars

end Bracket

namespace BracketTable

/-- The kinds are proper, and they and those of the table are compatible. -/
structure Admits (t : BracketTable) (kinds : List Bracket) : Prop where
  proper : ∀ k ∈ kinds, k.Proper
  compatible : ∀ a ∈ t.kinds ++ kinds, ∀ b ∈ t.kinds ++ kinds, a.Compatible b

variable {t t' t'' : BracketTable} {k : Bracket} {kinds rest : List Bracket}

/-! ## One kind -/

theorem WellFormed.compatible (h : t.WellFormed) {a b : Bracket} (ha : a ∈ t.kinds)
    (hb : b ∈ t.kinds) : a.Compatible b := by
  by_cases hab : a = b
  · exact .inl hab
  · exact .inr fun c hc hc' => hab (h.eq_of_mem_chars ha hb hc hc')

theorem WellFormed.proper (h : t.WellFormed) (hk : k ∈ t.kinds) : k.Proper :=
  ⟨h.opener_ne_closer hk hk, h.not_reserved k hk⟩

theorem WellFormed.admits_nil (h : t.WellFormed) : t.Admits [] := by
  refine ⟨by simp, fun a ha b hb => ?_⟩
  rw [List.append_nil] at ha hb
  exact h.compatible ha hb

/-- A kind that the table takes is proper, and compatible with every kind in it. -/
theorem WellFormed.of_register (h : t.WellFormed) (hr : t.register k = .ok t') :
    k.Proper ∧ ∀ j ∈ t.kinds, k.Compatible j := by
  have hmem := mem_of_register hr
  have hwf := h.register hr
  have hk : k ∈ t'.kinds := (hmem k).mpr (.inl rfl)
  exact ⟨hwf.proper hk, fun j hj => hwf.compatible hk ((hmem j).mpr (.inr hj))⟩

/-- A character of a proper kind is free if the kind is new to the table. -/
theorem isDelimiter_eq_false_of_compatible (hk : k ∉ t.kinds)
    (hcompatible : ∀ j ∈ t.kinds, k.Compatible j) {c : Char} (hc : c ∈ k.chars) :
    t.isDelimiter c = false := by
  rw [Bool.eq_false_iff, Ne, isDelimiter_iff]
  intro hused
  obtain ⟨j, hj, hc'⟩ := hused
  rcases hcompatible j hj with rfl | hdisjoint
  · exact hk hj
  · exact hdisjoint hc hc'

theorem WellFormed.exists_register (h : t.WellFormed) (hproper : k.Proper)
    (hcompatible : ∀ j ∈ t.kinds, k.Compatible j) : ∃ t', t.register k = .ok t' := by
  obtain ⟨hne, hreserved⟩ := hproper
  have hopener := hreserved k.opener (by simp)
  have hcloser := hreserved k.closer (by simp)
  unfold BracketTable.register
  rw [if_neg hne, if_neg (by simp [hopener]), if_neg (by simp [hcloser])]
  by_cases hk : k ∈ t.kinds
  · rw [h.opener?_opener hk]
    exact ⟨t, if_pos rfl⟩
  · have hfree : ∀ c ∈ k.chars, t.isDelimiter c = false :=
      fun c => isDelimiter_eq_false_of_compatible hk hcompatible
    have hunused : t.opener? k.opener = none ∧ t.closer? k.opener = none := by
      simpa [isDelimiter] using hfree k.opener (by simp)
    simp [hunused.1, hunused.2, hfree k.closer (by simp)]

/-! ## All kinds of a list -/

theorem registerAll_cons_eq_ok_iff : t.registerAll (k :: rest) = .ok t'' ↔
    ∃ t', t.register k = .ok t' ∧ t'.registerAll rest = .ok t'' := bind_eq_ok_iff

/-- Once the first kind is in the table, the table admits the others exactly if it
admitted all of them before. -/
theorem WellFormed.admits_cons_iff (h : t.WellFormed) (hr : t.register k = .ok t') :
    t.Admits (k :: rest) ↔ t'.Admits rest := by
  have hmem : ∀ j, j ∈ t'.kinds ++ rest ↔ j ∈ t.kinds ++ k :: rest := by
    intro j
    rw [List.mem_append, List.mem_append, List.mem_cons, mem_of_register hr, or_assoc,
      or_left_comm]
  constructor
  · intro hall
    refine ⟨fun j hj => hall.proper j (List.mem_cons_of_mem _ hj), fun a ha b hb => ?_⟩
    exact hall.compatible a ((hmem a).mp ha) b ((hmem b).mp hb)
  · intro hrest
    refine ⟨?_, fun a ha b hb => hrest.compatible a ((hmem a).mpr ha) b ((hmem b).mpr hb)⟩
    rw [List.forall_mem_cons]
    exact ⟨(h.of_register hr).1, hrest.proper⟩

theorem Admits.exists_register (hall : t.Admits (k :: rest)) (h : t.WellFormed) :
    ∃ t', t.register k = .ok t' :=
  h.exists_register (hall.proper k (by simp)) fun j hj =>
    hall.compatible k (by simp) j (List.mem_append_left _ hj)

theorem WellFormed.exists_registerAll_iff (h : t.WellFormed) (kinds : List Bracket) :
    (∃ t', t.registerAll kinds = .ok t') ↔ t.Admits kinds := by
  induction kinds generalizing t with
  | nil => exact ⟨fun _ => h.admits_nil, fun _ => ⟨t, rfl⟩⟩
  | cons k rest ih =>
    constructor
    · intro hall
      obtain ⟨t'', hall⟩ := hall
      obtain ⟨t', hr, hrest⟩ := registerAll_cons_eq_ok_iff.mp hall
      exact (h.admits_cons_iff hr).mpr ((ih (h.register hr)).mp ⟨t'', hrest⟩)
    · intro hall
      obtain ⟨t', hr⟩ := hall.exists_register h
      obtain ⟨t'', hrest⟩ := (ih (h.register hr)).mpr ((h.admits_cons_iff hr).mp hall)
      exact ⟨t'', registerAll_cons_eq_ok_iff.mpr ⟨t', hr, hrest⟩⟩

theorem mem_of_registerAll (h : t.registerAll kinds = .ok t') (j : Bracket) :
    j ∈ t'.kinds ↔ j ∈ t.kinds ++ kinds := by
  induction kinds generalizing t with
  | nil =>
    cases h
    rw [List.append_nil]
  | cons k rest ih =>
    obtain ⟨t₁, hr, hrest⟩ := registerAll_cons_eq_ok_iff.mp h
    rw [ih hrest, List.mem_append, List.mem_append, List.mem_cons, mem_of_register hr, or_assoc,
      or_left_comm]

/-- Where nothing is refused, registering is offering. -/
theorem offerAll_of_registerAll (h : t.registerAll kinds = .ok t') : t.offerAll kinds = t' := by
  induction kinds generalizing t with
  | nil =>
    cases h
    rfl
  | cons k rest ih =>
    obtain ⟨t₁, hr, hrest⟩ := registerAll_cons_eq_ok_iff.mp h
    have hoffer : t.offer k = t₁ := by rw [offer, hr]
    have hfold : t.offerAll (k :: rest) = (t.offer k).offerAll rest := rfl
    rw [hfold, hoffer, ih hrest]

/-! ## The order of a table -/

/-- The kinds are in order of their openers, and no opener is there twice. -/
def Sorted (t : BracketTable) : Prop := t.kinds.Pairwise fun a b => a.opener < b.opener

theorem sorted_default : default.Sorted := by
  simp [Sorted, default, Bracket.parens, Bracket.square]

theorem pairwise_insertByOpener (hsorted : kinds.Pairwise fun a b => a.opener < b.opener)
    (hnew : ∀ a ∈ kinds, a.opener ≠ k.opener) :
    (insertByOpener k kinds).Pairwise fun a b => a.opener < b.opener := by
  induction kinds with
  | nil => simp [insertByOpener]
  | cons a rest ih =>
    obtain ⟨hfirst, hrest⟩ := List.pairwise_cons.mp hsorted
    obtain ⟨hne, hnew⟩ := List.forall_mem_cons.mp hnew
    rw [insertByOpener]
    split
    · rename_i hlt
      refine List.pairwise_cons.mpr ⟨?_, hsorted⟩
      rw [List.forall_mem_cons]
      exact ⟨hlt, fun b hb => Char.lt_trans hlt (hfirst b hb)⟩
    · rename_i hle
      refine List.pairwise_cons.mpr ⟨fun b hb => ?_, ih hrest hnew⟩
      rcases mem_insertByOpener.mp hb with rfl | hb
      · exact Char.not_le.mp fun hge => hne (Char.le_antisymm (Char.not_lt.mp hle) hge)
      · exact hfirst b hb

theorem Sorted.register (hsorted : t.Sorted) (hr : t.register k = .ok t') : t'.Sorted := by
  rcases register_eq_ok hr with ⟨rfl, -⟩ | ⟨-, hfree, rfl⟩
  · exact hsorted
  · refine pairwise_insertByOpener hsorted fun a ha he => ?_
    have hused := isDelimiter_iff.mpr ⟨a, ha, Bracket.mem_chars.mpr (.inl he.symm)⟩
    rw [(hfree k.opener (by simp)).2] at hused
    contradiction

theorem Sorted.registerAll (hsorted : t.Sorted) (h : t.registerAll kinds = .ok t') : t'.Sorted := by
  induction kinds generalizing t with
  | nil =>
    cases h
    exact hsorted
  | cons k rest ih =>
    obtain ⟨t₁, hr, hrest⟩ := registerAll_cons_eq_ok_iff.mp h
    exact ih (hsorted.register hr) hrest

/-- A sorted table is determined by its kinds. -/
theorem Sorted.eq_of_mem_iff (h : t.Sorted) (h' : t'.Sorted)
    (hmem : ∀ k, k ∈ t.kinds ↔ k ∈ t'.kinds) : t = t' := by
  have hirrefl : Std.Irrefl fun a b : Bracket => a.opener < b.opener :=
    ⟨fun a => Char.lt_irrefl a.opener⟩
  have hantisymm : Std.Antisymm fun a b : Bracket => a.opener < b.opener :=
    ⟨fun a b hab hba => absurd (Char.lt_trans hab hba) (Char.lt_irrefl a.opener)⟩
  have hkinds : t.kinds = t'.kinds := List.Pairwise.eq_of_mem_iff h h' hmem
  cases t
  cases t'
  exact congrArg mk hkinds

/-! ## The rule -/

theorem Admits.of_mem_iff {others : List Bracket} (h : t.Admits kinds)
    (hmem : ∀ k, k ∈ others ↔ k ∈ kinds) : t.Admits others := by
  have happend : ∀ k, k ∈ t.kinds ++ others ↔ k ∈ t.kinds ++ kinds := by
    intro k
    rw [List.mem_append, List.mem_append, hmem]
  exact ⟨fun k hk => h.proper k ((hmem k).mp hk), fun a ha b hb =>
    h.compatible a ((happend a).mp ha) b ((happend b).mp hb)⟩

theorem WellFormed.registerAll_of_mem_iff (h : t.WellFormed) (hsorted : t.Sorted)
    {others : List Bracket} (hr : t.registerAll kinds = .ok t')
    (hmem : ∀ k, k ∈ others ↔ k ∈ kinds) : t.registerAll others = .ok t' := by
  have hall := (h.exists_registerAll_iff kinds).mp ⟨t', hr⟩
  obtain ⟨t₁, hr₁⟩ := (h.exists_registerAll_iff others).mpr (hall.of_mem_iff hmem)
  have hsame : t₁ = t' := by
    refine (hsorted.registerAll hr₁).eq_of_mem_iff (hsorted.registerAll hr) fun k => ?_
    rw [mem_of_registerAll hr₁, mem_of_registerAll hr, List.mem_append, List.mem_append, hmem]
  rw [hr₁, hsame]

theorem WellFormed.closerOf?_eq_some_iff (h : t.WellFormed) {o c : Char} :
    t.closerOf? o = some c ↔ ⟨o, c⟩ ∈ t.kinds := by
  rw [closerOf?, Option.map_eq_some_iff]
  constructor
  · intro hfound
    obtain ⟨k, hk, rfl⟩ := hfound
    obtain ⟨hmem, rfl⟩ := mem_of_opener? hk
    exact hmem
  · intro hmem
    exact ⟨⟨o, c⟩, h.opener?_opener hmem, rfl⟩

/-- A list of kinds is registered without a refusal exactly if the default table
admits it. The table then maps the openers of the list and of the default kinds to
their closers and holds nothing else, and every list with the same members, in any
order and with any repetitions, leads to the same table. -/
theorem exists_registerAll_iff_admits (kinds : List Bracket) :
    ((∃ t, default.registerAll kinds = .ok t) ↔ default.Admits kinds) ∧
      ∀ t, default.registerAll kinds = .ok t →
        default.offerAll kinds = t ∧
        (∀ o c, t.closerOf? o = some c ↔ ⟨o, c⟩ ∈ default.kinds ++ kinds) ∧
        ∀ others, (∀ k, k ∈ others ↔ k ∈ kinds) → default.registerAll others = .ok t := by
  refine ⟨wellFormed_default.exists_registerAll_iff kinds, fun t hr => ?_⟩
  have hoffer := offerAll_of_registerAll hr
  have hwf : t.WellFormed := hoffer ▸ wellFormed_default.offerAll kinds
  refine ⟨hoffer, fun o c => ?_, fun others hmem => ?_⟩
  · rw [hwf.closerOf?_eq_some_iff, mem_of_registerAll hr]
  · exact wellFormed_default.registerAll_of_mem_iff sorted_default hr hmem

end BracketTable
end SExpr
