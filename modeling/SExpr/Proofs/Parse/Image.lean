import SExpr.Proofs.Parse.Grammar
import SExpr.Proofs.Print.Tokens
import SExpr.Proofs.Value.Parts

/-! # What texts are read as

Not every value comes from a text. Every symbol that is read has a name, brackets are
of the table, and a number that is not finite is an infinite one. No more brackets and
apostrophes enclose each other than the reader allows. -/

namespace SExpr

/-! ## Numbers -/

namespace Binary64

/-- All exponent bits are set and no fraction bit: the number overflowed. -/
def IsInfinite (x : Binary64) : Prop := x.magnitude = infinite

instance (x : Binary64) : Decidable x.IsInfinite :=
  inferInstanceAs (Decidable (x.magnitude = infinite))

theorem IsInfinite.isFinite_eq_false {x : Binary64} (h : x.IsInfinite) : x.isFinite = false := by
  simp [isFinite, show x.magnitude = infinite from h]

theorem magnitude_ofMagnitude (negative : Bool) {m : Nat} (h : m < 2 ^ 63) :
    (ofMagnitude negative m).magnitude = m := by
  unfold ofMagnitude magnitude
  dsimp only
  rw [UInt64.toNat_ofNat']
  cases negative <;> simp <;> omega

theorem nearest_le_infinite (num den : Nat) : nearest num den ≤ infinite := Nat.min_le_left _ _

end Binary64

theorem Decimal.nearest_le_infinite (d : Decimal) : d.nearest ≤ Binary64.infinite := by
  unfold Decimal.nearest
  split_ifs
  · exact Nat.zero_le _
  · exact Nat.le_refl _
  · exact Nat.zero_le _
  · exact Binary64.nearest_le_infinite _ _
  · exact Binary64.nearest_le_infinite _ _

/-- No text is read as a NaN. -/
theorem Number.isFinite_or_isInfinite {text : List Char} {x : Binary64}
    (h : Number.read? text = some (.float x)) : x.isFinite = true ∨ x.IsInfinite := by
  obtain ⟨negative, d, -, rfl⟩ := Number.read?_eq_some_float_iff.mp h
  have hle := d.nearest_le_infinite
  have hlt : Binary64.infinite < 2 ^ 63 := by decide
  have hmagnitude : (Binary64.ofDecimal negative d).magnitude = d.nearest :=
    Binary64.magnitude_ofMagnitude negative (by omega)
  rw [Binary64.isFinite, Binary64.IsInfinite, decide_eq_true_iff, hmagnitude]
  omega

/-! ## Tokens -/

/-- An opener is one of the table, and the text of an atom is not empty. -/
def Token.IsKnown (t : BracketTable) : Token → Prop
  | .opening kind => kind ∈ t.kinds
  | .atom content _ => content ≠ ""
  | _ => True

namespace Scan

variable {rt : Readtable}

theorem isKnown_next {text rest : List Char} {l : Lexeme} (h : next rt text = .more l rest) :
    l.token.IsKnown rt.brackets := by
  have hraw := raw_ne_nil h
  simp only [next] at h
  split at h
  · contradiction
  · split at h
    · rename_i hrole
      cases h
      exact Readtable.mem_kinds_of_role hrole
    · cases h
      trivial
    · cases h
      trivial
    · split at h
      · cases h
        trivial
      · contradiction
    · cases h
      rw [Token.IsKnown, ne_eq, ← String.toList_eq_nil_iff, String.toList_ofList]
      exact Atom.decode_ne_nil hraw

/-- What holds of the first lexeme of every text holds of all lexemes. -/
theorem forall_mem_scan {P : Lexeme → Prop}
    (hnext : ∀ text rest l, next rt text = .more l rest → P l) (text : List Char) :
    ∀ l ∈ (scan rt text).lexemes, P l := by
  cases h : next rt text with
  | done ending => simp [scan_of_done h]
  | more first rest =>
    have hlt := length_lt_of_next h
    rw [scan_of_more h]
    intro l hl
    rcases List.mem_cons.mp hl with rfl | hl
    · exact hnext text rest l h
    · exact forall_mem_scan hnext rest l hl
termination_by text.length

end Scan

theorem Tokenizes.isKnown {rt : Readtable} {source : String} {ts : List Token}
    (h : Tokenizes rt source ts) : ∀ t ∈ ts, t.IsKnown rt.brackets := by
  obtain ⟨hts, -⟩ := h
  have htokens : (tokenize rt source).tokens.map Located.token =
      (scan rt source.toList).lexemes.map Lexeme.token := by
    unfold tokenize Scan.located
    cases (scan rt source.toList).ending <;> exact Scan.map_token_place _ _
  intro t ht
  rw [← hts, htokens] at ht
  obtain ⟨l, hl, rfl⟩ := List.mem_map.mp ht
  exact Scan.forall_mem_scan (fun _ _ _ => Scan.isKnown_next) _ l hl

/-! ## Values -/

/-- The value by itself may come from a text, whatever is in it. -/
def Value.IsRead (t : BracketTable) (u : Value) : Prop :=
  u.Spelled t ∨ ∃ x : Binary64, u = .float x ∧ x.IsInfinite

section
variable {t : BracketTable} {p : ParseOptions} {limit : Nat}

theorem isRead_atom (hp : p.Unnamed) {content : String} (hne : content ≠ "") (escaped : Bool) :
    ∀ u ∈ (Reader.atom p content escaped).parts, u.IsRead t := by
  rcases hp.atom_cases content escaped with h | ⟨n, h⟩ | ⟨x, hread, h⟩
  · rw [h]
    exact List.forall_mem_singleton.mpr (.inl hne)
  · rw [h]
    exact List.forall_mem_singleton.mpr (.inl trivial)
  · rw [h]
    refine List.forall_mem_singleton.mpr ?_
    rcases Number.isFinite_or_isInfinite hread with hfinite | hinfinite
    · exact .inl hfinite
    · exact .inr ⟨x, rfl, hinfinite⟩

mutual

theorem isRead_parts (hp : p.Unnamed) {depth : Nat} {ts : List Token} {d : Derivation}
    (hts : ∀ u ∈ ts, u.IsKnown t) (h : Derives limit depth ts d) :
    ∀ u ∈ (d.value p).parts, u.IsRead t := by
  cases h with
  | string => exact List.forall_mem_singleton.mpr (.inl trivial)
  | @atom _ content escaped =>
    rw [Derivation.value]
    exact isRead_atom hp (hts (.atom content escaped) (by simp)) escaped
  | quoted _ hd =>
    rw [Derivation.value, Value.parts, List.forall_mem_cons]
    exact ⟨.inl trivial, isRead_parts hp (fun u hu => hts u (by simp [hu])) hd⟩
  | @sequence _ kind _ _ _ hds =>
    rw [Derivation.value, Value.parts, List.forall_mem_cons]
    exact ⟨.inl (hts (.opening kind) (by simp)),
      isRead_partsAll hp (fun u hu => hts u (by simp [hu])) hds⟩
termination_by sizeOf d

theorem isRead_partsAll (hp : p.Unnamed) {depth : Nat} {ts : List Token} {ds : List Derivation}
    (hts : ∀ u ∈ ts, u.IsKnown t) (h : DerivesAll limit depth ts ds) :
    ∀ u ∈ Value.partsAll (Derivation.values p ds), u.IsRead t := by
  cases h with
  | nil => simp [Derivation.values, Value.partsAll]
  | cons hd hds =>
    rw [Derivation.values, Value.partsAll, List.forall_mem_append]
    exact ⟨isRead_parts hp (fun u hu => hts u (by simp [hu])) hd,
      isRead_partsAll hp (fun u hu => hts u (by simp [hu])) hds⟩
termination_by sizeOf ds

end

theorem nesting_atom (hp : p.Unnamed) (content : String) (escaped : Bool) :
    (Reader.atom p content escaped).nesting = 0 := by
  rcases hp.atom_cases content escaped with h | ⟨n, h⟩ | ⟨x, -, h⟩ <;> rw [h] <;> rfl

mutual

theorem nesting_le (hp : p.Unnamed) {depth : Nat} {ts : List Token} {d : Derivation}
    (h : Derives limit depth ts d) : (d.value p).nesting ≤ limit - depth := by
  cases h with
  | string => exact Nat.zero_le _
  | atom =>
    rw [Derivation.value, nesting_atom hp]
    exact Nat.zero_le _
  | quoted hdepth hd =>
    have hinner := nesting_le hp hd
    rw [Derivation.value, Value.nesting]
    omega
  | sequence hdepth hds =>
    have hitems := nestingAll_le hp hds
    rw [Derivation.value, Value.nesting]
    omega
termination_by sizeOf d

theorem nestingAll_le (hp : p.Unnamed) {depth : Nat} {ts : List Token} {ds : List Derivation}
    (h : DerivesAll limit depth ts ds) :
    Value.nestingAll (Derivation.values p ds) ≤ limit - depth := by
  cases h with
  | nil => exact Nat.zero_le _
  | cons hd hds =>
    have hfirst := nesting_le hp hd
    have hrest := nestingAll_le hp hds
    rw [Derivation.values, Value.nestingAll]
    exact Nat.max_le.mpr ⟨hfirst, hrest⟩
termination_by sizeOf ds

end

end

/-- All that is read may come from a text, and keeps to the limit. -/
theorem ParseOptions.Unnamed.isRead_of_parse {p : ParseOptions} (hp : p.Unnamed)
    {brackets : BracketTable} {source : String} {values : List Value}
    (h : parse brackets p source = .ok values) :
    (∀ u ∈ Value.partsAll values, u.IsRead brackets) ∧ Value.nestingAll values ≤ p.maxDepth := by
  obtain ⟨ts, ds, hts, hds, rfl⟩ := parse_sound h
  exact ⟨isRead_partsAll hp hts.isKnown hds, nestingAll_le hp hds⟩

end SExpr
