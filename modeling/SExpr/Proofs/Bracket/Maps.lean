import Std.Data.ExtTreeMap
import SExpr.Proofs.Bracket.Reachable

/-! # A table as two maps

The kinds of a table can be filed twice, by their openers and by their closers, and
an insertion then overwrites what is filed under the same characters. Nothing is
ever overwritten: registering looks both characters up in both maps first. So after
any history of offers the maps mirror each other and hold what the table holds. -/

namespace SExpr

/-- Kinds by opener and by closer. -/
structure BracketMaps where
  openers : Std.ExtTreeMap Char Bracket
  closers : Std.ExtTreeMap Char Bracket

namespace BracketMaps

/-- Files `k` under both of its characters, whatever was there. -/
def insert (m : BracketMaps) (k : Bracket) : BracketMaps :=
  ⟨m.openers.insert k.opener k, m.closers.insert k.closer k⟩

def empty : BracketMaps := ⟨∅, ∅⟩

def default : BracketMaps := (empty.insert .parens).insert .square

/-- The maps with `k` added, if its characters pass all checks. -/
def register (m : BracketMaps) (k : Bracket) : Except RegistryError BracketMaps :=
  if k.opener = k.closer then .error (.sameCharacter k.opener)
  else if isReserved k.opener then .error (.reserved k.opener)
  else if isReserved k.closer then .error (.reserved k.closer)
  else match m.openers[k.opener]? with
    | some known =>
      if known = k then .ok m else .error (.openerInUse k.opener known.closer)
    | none =>
      if m.closers[k.opener]?.isSome then .error (.characterInUse k.opener)
      else if m.openers[k.closer]?.isSome || m.closers[k.closer]?.isSome then
        .error (.characterInUse k.closer)
      else .ok (m.insert k)

def offer (m : BracketMaps) (k : Bracket) : BracketMaps :=
  match m.register k with
  | .ok m' => m'
  | .error _ => m

def offerAll (m : BracketMaps) (kinds : List Bracket) : BracketMaps :=
  kinds.foldl offer m

/-- The maps find the kinds that the table finds. -/
structure Shows (m : BracketMaps) (t : BracketTable) : Prop where
  openers : ∀ c, m.openers[c]? = t.opener? c
  closers : ∀ c, m.closers[c]? = t.closer? c

/-- Both maps hold the same kinds, and no character is used twice. -/
structure Consistent (m : BracketMaps) : Prop where
  mirror : ∀ o c : Char, m.openers[o]? = some ⟨o, c⟩ ↔ m.closers[c]? = some ⟨o, c⟩
  opener_eq : ∀ (o : Char) (k : Bracket), m.openers[o]? = some k → k.opener = o
  closer_eq : ∀ (c : Char) (k : Bracket), m.closers[c]? = some k → k.closer = c
  size_eq : m.openers.size = m.closers.size
  /-- The openers and the closers, taken together. -/
  nodup : (m.openers.keys ++ m.closers.keys).Nodup
  not_reserved : ∀ c ∈ m.openers.keys ++ m.closers.keys, isReserved c = false
  parens : m.openers['(']? = some .parens
  square : m.openers['[']? = some .square

end BracketMaps

variable {t t' : BracketTable} {m : BracketMaps} {k : Bracket} {c : Char}

/-! ## Lookups -/

namespace BracketTable

theorem WellFormed.opener?_eq_some_iff (h : t.WellFormed) :
    t.opener? c = some k ↔ k ∈ t.kinds ∧ k.opener = c := by
  refine ⟨mem_of_opener?, fun hk => ?_⟩
  obtain ⟨hk, rfl⟩ := hk
  exact h.opener?_opener hk

theorem WellFormed.closer?_eq_some_iff (h : t.WellFormed) :
    t.closer? c = some k ↔ k ∈ t.kinds ∧ k.closer = c := by
  refine ⟨mem_of_closer?, fun hk => ?_⟩
  obtain ⟨hk, rfl⟩ := hk
  exact h.closer?_closer hk

/-- What is found in a table after an insertion: the new kind, if it is what was
looked for and nothing else was. -/
theorem find?_insertByOpener {p : Bracket → Bool} {kinds : List Bracket}
    (hnew : p k = true → kinds.find? p = none) :
    (insertByOpener k kinds).find? p = if p k then some k else kinds.find? p := by
  induction kinds with
  | nil => cases hk : p k <;> simp [insertByOpener, hk]
  | cons a rest ih =>
    rw [insertByOpener]
    split
    · rw [List.find?_cons]
      cases p k <;> rfl
    · rw [List.find?_cons, List.find?_cons] at *
      cases ha : p a with
      | false => simpa [ha] using ih (by simpa [ha] using hnew)
      | true =>
        have hk : p k = false := by
          rw [Bool.eq_false_iff]
          intro hk
          simpa [ha] using hnew hk
        simp [hk]

theorem WellFormed.nodup_map (h : t.WellFormed) {f : Bracket → Char} (hf : ∀ k, f k ∈ k.chars) :
    (t.kinds.map f).Nodup := by
  rw [List.Nodup, List.pairwise_map]
  refine (List.nodup_flatMap.mp h.nodup).2.imp fun hdisjoint he => ?_
  exact hdisjoint (hf _) (he ▸ hf _)

end BracketTable

/-! ## Registering in both -/

namespace BracketMaps

theorem Shows.insert (h : m.Shows t) (hopener : t.opener? k.opener = none)
    (hcloser : t.closer? k.closer = none) :
    (m.insert k).Shows ⟨BracketTable.insertByOpener k t.kinds⟩ := by
  refine ⟨fun c => ?_, fun c => ?_⟩
  · have hnew : (k.opener == c) = true → t.opener? c = none := fun he => beq_iff_eq.mp he ▸ hopener
    rw [BracketTable.opener?, BracketTable.find?_insertByOpener hnew]
    simp [BracketMaps.insert, Std.ExtTreeMap.getElem?_insert, h.openers, BracketTable.opener?]
  · have hnew : (k.closer == c) = true → t.closer? c = none := fun he => beq_iff_eq.mp he ▸ hcloser
    rw [BracketTable.closer?, BracketTable.find?_insertByOpener hnew]
    simp [BracketMaps.insert, Std.ExtTreeMap.getElem?_insert, h.closers, BracketTable.closer?]

/-- Both calls succeed, or both are refused for the same reason. -/
def ShowsResult : Except RegistryError BracketMaps → Except RegistryError BracketTable → Prop
  | .ok m, .ok t => m.Shows t
  | .error e, .error e' => e = e'
  | _, _ => False

theorem Shows.register (h : m.Shows t) (k : Bracket) :
    ShowsResult (m.register k) (t.register k) := by
  unfold BracketTable.register BracketMaps.register BracketTable.isDelimiter
  simp only [h.openers, h.closers]
  cases hopener : t.opener? k.opener with
  | some known =>
    dsimp only
    split_ifs <;> first | exact rfl | exact h
  | none =>
    dsimp only
    split_ifs with hsame hreserved hreserved' hused hused'
    any_goals exact rfl
    have hfree : t.opener? k.closer = none ∧ t.closer? k.closer = none := by simpa using hused'
    exact h.insert hopener hfree.2

theorem Shows.offer (h : m.Shows t) (k : Bracket) : (m.offer k).Shows (t.offer k) := by
  have hregister := h.register k
  unfold BracketTable.offer BracketMaps.offer
  cases hm : m.register k with
  | ok m' =>
    cases ht : t.register k with
    | ok t' =>
      rw [hm, ht] at hregister
      exact hregister
    | error e =>
      rw [hm, ht] at hregister
      contradiction
  | error e =>
    cases ht : t.register k with
    | ok t' =>
      rw [hm, ht] at hregister
      contradiction
    | error e' => exact h

theorem Shows.offerAll (h : m.Shows t) (kinds : List Bracket) :
    (m.offerAll kinds).Shows (t.offerAll kinds) := by
  induction kinds generalizing m t with
  | nil => exact h
  | cons k rest ih => exact ih (h.offer k)

theorem shows_default : default.Shows .default := by
  have hempty : empty.Shows ⟨[]⟩ := ⟨fun _ => rfl, fun _ => rfl⟩
  have hparens := hempty.insert (k := .parens) rfl rfl
  exact hparens.insert (k := .square) rfl rfl

/-! ## What the maps of a well-formed table have in common -/

theorem Shows.mem_openers (h : m.Shows t) : c ∈ m.openers.keys ↔ ∃ k ∈ t.kinds, k.opener = c := by
  rw [Std.ExtTreeMap.mem_keys, Std.ExtTreeMap.mem_iff_isSome_getElem?, h.openers]
  simp [BracketTable.opener?]

theorem Shows.mem_closers (h : m.Shows t) : c ∈ m.closers.keys ↔ ∃ k ∈ t.kinds, k.closer = c := by
  rw [Std.ExtTreeMap.mem_keys, Std.ExtTreeMap.mem_iff_isSome_getElem?, h.closers]
  simp [BracketTable.closer?]

/-- Each map has one entry for each kind of the table. -/
theorem Shows.size_eq (h : m.Shows t) (ht : t.WellFormed) :
    m.openers.size = t.size ∧ m.closers.size = t.size := by
  have hopeners : m.openers.keys.Perm (t.kinds.map Bracket.opener) :=
    (List.perm_ext_iff_of_nodup Std.ExtTreeMap.nodup_keys (ht.nodup_map (by simp))).mpr
      fun c => by rw [h.mem_openers, List.mem_map]
  have hclosers : m.closers.keys.Perm (t.kinds.map Bracket.closer) :=
    (List.perm_ext_iff_of_nodup Std.ExtTreeMap.nodup_keys (ht.nodup_map (by simp))).mpr
      fun c => by rw [h.mem_closers, List.mem_map]
  constructor
  · rw [← Std.ExtTreeMap.length_keys, hopeners.length_eq, List.length_map, BracketTable.size]
  · rw [← Std.ExtTreeMap.length_keys, hclosers.length_eq, List.length_map, BracketTable.size]

theorem Shows.consistent (h : m.Shows t) (ht : t.WellFormed) : m.Consistent where
  mirror o c := by
    rw [h.openers, h.closers, ht.opener?_eq_some_iff, ht.closer?_eq_some_iff]
    exact and_congr_right fun _ => ⟨fun _ => rfl, fun _ => rfl⟩
  opener_eq o k hk := (BracketTable.mem_of_opener? (h.openers o ▸ hk)).2
  closer_eq c k hk := (BracketTable.mem_of_closer? (h.closers c ▸ hk)).2
  size_eq := (h.size_eq ht).1.trans (h.size_eq ht).2.symm
  nodup := by
    refine List.nodup_append.mpr ⟨Std.ExtTreeMap.nodup_keys, Std.ExtTreeMap.nodup_keys, ?_⟩
    intro c hc d hd
    obtain ⟨k, hk, rfl⟩ := h.mem_openers.mp hc
    obtain ⟨j, hj, rfl⟩ := h.mem_closers.mp hd
    exact ht.opener_ne_closer hk hj
  not_reserved c hc := by
    rcases List.mem_append.mp hc with hc | hc
    · obtain ⟨k, hk, rfl⟩ := h.mem_openers.mp hc
      exact ht.not_reserved k hk _ (by simp)
    · obtain ⟨k, hk, rfl⟩ := h.mem_closers.mp hc
      exact ht.not_reserved k hk _ (by simp)
  parens := (h.openers _).trans (ht.opener?_opener ht.parens_mem)
  square := (h.openers _).trans (ht.opener?_opener ht.square_mem)

end BracketMaps

/-! ## Histories -/

namespace BracketTable

/-- The offers of a history that are taken. -/
def accepted (t : BracketTable) : List Bracket → List Bracket
  | [] => []
  | k :: rest =>
    match t.register k with
    | .ok t' => k :: accepted t' rest
    | .error _ => accepted t rest

/-- What a call does to a table: a refused kind changes nothing, and neither does a
known one; a new kind is added and nothing else. -/
def Registers (t : BracketTable) (k : Bracket) : Prop :=
  match t.register k with
  | .error _ => t.offer k = t
  | .ok t' => t.offer k = t' ∧ (t.contains k = true ∧ t' = t ∨
      t.contains k = false ∧ ∀ j, t'.contains j = true ↔ j = k ∨ t.contains j = true)

theorem mem_of_register (h : t.register k = .ok t') (j : Bracket) :
    j ∈ t'.kinds ↔ j = k ∨ j ∈ t.kinds := by
  rcases register_eq_ok h with ⟨rfl, hk⟩ | ⟨-, -, rfl⟩
  · refine ⟨.inr, fun hj => ?_⟩
    rcases hj with hj | hj
    · exact hj ▸ hk
    · exact hj
  · exact mem_insertByOpener

theorem mem_offerAll_iff (history : List Bracket) (j : Bracket) :
    j ∈ (t.offerAll history).kinds ↔ j ∈ t.kinds ∨ j ∈ t.accepted history := by
  induction history generalizing t with
  | nil => simp [offerAll, accepted]
  | cons k rest ih =>
    have hfold : t.offerAll (k :: rest) = (t.offer k).offerAll rest := rfl
    rw [hfold, ih, accepted, offer]
    cases hr : t.register k with
    | error e => rfl
    | ok t' =>
      dsimp only
      rw [mem_of_register hr, List.mem_cons, or_comm (a := j = k), or_assoc]

theorem WellFormed.registers (h : t.WellFormed) (k : Bracket) : t.Registers k := by
  unfold Registers BracketTable.offer
  cases hr : t.register k with
  | error e => rfl
  | ok t' =>
    refine ⟨rfl, ?_⟩
    cases hk : t.contains k with
    | true =>
      have hmem := h.contains_iff.mp hk
      rcases register_eq_ok hr with ⟨rfl, -⟩ | ⟨-, hfree, -⟩
      · exact .inl ⟨rfl, rfl⟩
      · have hdelimiter := isDelimiter_iff.mpr ⟨k, hmem, Bracket.mem_chars.mpr (.inl rfl)⟩
        rw [(hfree k.opener (by simp)).2] at hdelimiter
        contradiction
    | false =>
      refine .inr ⟨rfl, fun j => ?_⟩
      rw [(h.register hr).contains_iff, h.contains_iff, mem_of_register hr]

/-- A closer that was found once is found for good. -/
theorem WellFormed.closerOf?_offerAll (h : t.WellFormed) {o : Char} (hc : t.closerOf? o = some c)
    (more : List Bracket) : (t.offerAll more).closerOf? o = some c := by
  obtain ⟨k, hk, rfl⟩ := Option.map_eq_some_iff.mp hc
  obtain ⟨hmem, rfl⟩ := mem_of_opener? hk
  have hlater := (mem_offerAll_iff more k).mpr (.inl hmem)
  rw [closerOf?, (h.offerAll more).opener?_opener hlater]
  rfl

/-- Registering over any history, in one table and in two maps at once: the maps
show the table and are consistent, the table holds the two default kinds and those
that were taken, and another call adds its own kind or nothing at all. -/
theorem offerAll_consistent (history : List Bracket) :
    (BracketMaps.default.offerAll history).Shows (default.offerAll history) ∧
      (BracketMaps.default.offerAll history).Consistent ∧
      (∀ k, (default.offerAll history).contains k = true ↔
        k = .parens ∨ k = .square ∨ k ∈ default.accepted history) ∧
      (∀ k, (default.offerAll history).Registers k ∧
        BracketMaps.ShowsResult ((BracketMaps.default.offerAll history).register k)
          ((default.offerAll history).register k)) ∧
      ∀ more o c, (default.offerAll history).closerOf? o = some c →
        (default.offerAll (history ++ more)).closerOf? o = some c := by
  have hshows := BracketMaps.shows_default.offerAll history
  have hwf := wellFormed_default.offerAll history
  refine ⟨hshows, hshows.consistent hwf, fun k => ?_, fun k => ⟨hwf.registers k, hshows.register k⟩,
    fun more o c hc => ?_⟩
  · rw [hwf.contains_iff, mem_offerAll_iff, ← or_assoc]
    simp [default]
  · rw [offerAll, List.foldl_append]
    exact hwf.closerOf?_offerAll hc more

end BracketTable
end SExpr
