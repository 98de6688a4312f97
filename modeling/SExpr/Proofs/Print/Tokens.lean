import SExpr.Proofs.Layout.Tokens
import SExpr.Proofs.Parse.Grammar
import SExpr.Proofs.Value.Norm

/-! # The tokens of a printed value

Three things are known of them, whatever the brackets are. A text that the value is
printed as spells them. They derive the value that is expected if no bracket is among
the characters that are put down as they are. And each such bracket is a token more
than there are openers and closers in the value, which no derivation allows.
`ReadsAs` says this of a layout; for the default names of a writer and a reader
without names it is expected to be read as the `norm` of the value. -/

namespace SExpr

/-- The reader gives no atom a meaning of its own. -/
structure ParseOptions.Unnamed (p : ParseOptions) : Prop where
  nilName : p.nilName = none
  trueName : p.trueName = none
  falseName : p.falseName = none

/-- The writer has the names of the default options, and the reader has none. -/
structure Writer.Matches (w : Writer) (p : ParseOptions) : Prop where
  nilName : w.options.nilName = "nil"
  trueName : w.options.trueName = "t"
  falseName : w.options.falseName = "()"
  comment : p.comment = w.options.comment
  unnamed : p.Unnamed

namespace ParseOptions.Unnamed

variable {p : ParseOptions}

theorem atom_eq (hp : p.Unnamed) (content : String) : Reader.atom p content false =
    match Number.read? content.toList with
    | some (.int n) => .int n
    | some (.float x) => .float x
    | none => .symbol content := by
  unfold Reader.atom Reader.bareAtom
  cases Number.read? content.toList with
  | none => simp [hp.nilName, hp.trueName, hp.falseName]
  | some n => cases n <;> simp [hp.nilName, hp.trueName, hp.falseName]

/-- An atom is the symbol of its text, or a number. -/
theorem atom_cases (hp : p.Unnamed) (content : String) (escaped : Bool) :
    Reader.atom p content escaped = .symbol content ∨
      (∃ n, Reader.atom p content escaped = .int n) ∨
      ∃ x, Number.read? content.toList = some (.float x) ∧
        Reader.atom p content escaped = .float x := by
  cases escaped with
  | true => exact .inl rfl
  | false =>
    rw [hp.atom_eq]
    cases hread : Number.read? content.toList with
    | none => exact .inl rfl
    | some number =>
      cases number with
      | int n => exact .inr (.inl ⟨n, rfl⟩)
      | float x => exact .inr (.inr ⟨x, rfl, rfl⟩)

/-- A written symbol is a symbol: it is escaped or no number. -/
theorem atom_encode (hp : p.Unnamed) (rt : Readtable) {name : String} (hname : name ≠ "") :
    Reader.atom p name (Atom.isEscaped (Atom.encode rt name.toList)) = .symbol name := by
  cases hescaped : Atom.isEscaped (Atom.encode rt name.toList) with
  | true => rfl
  | false =>
    have hnumber := Atom.isNumber_of_isEscaped_encode (by simpa using hname) hescaped
    rw [Number.isNumber, Option.isSome_eq_false_iff, Option.isNone_iff_eq_none] at hnumber
    rw [hp.atom_eq, hnumber]

theorem sequences_atom (hp : p.Unnamed) (content : String) (escaped : Bool) :
    (Reader.atom p content escaped).sequences = 0 := by
  rcases hp.atom_cases content escaped with h | ⟨n, h⟩ | ⟨x, -, h⟩ <;> rw [h] <;> rfl

end ParseOptions.Unnamed

namespace ParseOptions

mutual

/-- Brackets come in pairs, one pair for each sequence that is derived. An atom that
is read as a list is a sequence without them. -/
theorem bracketCount_derives (p : ParseOptions) {limit depth : Nat} {ts : List Token}
    {d : Derivation} (h : Derives limit depth ts d) :
    ∃ named, bracketCount ts + 2 * named = 2 * (d.value p).sequences ∧ (p.Unnamed → named = 0) := by
  cases h with
  | string => exact ⟨0, rfl, fun _ => rfl⟩
  | @atom _ content escaped =>
    refine ⟨(Reader.atom p content escaped).sequences, ?_, fun hp => hp.sequences_atom _ _⟩
    rw [Derivation.value]
    exact Nat.zero_add _
  | quoted _ hd =>
    obtain ⟨named, hcount, hnone⟩ := p.bracketCount_derives hd
    exact ⟨named, hcount, hnone⟩
  | @sequence _ kind ts ds _ hds =>
    obtain ⟨named, hcount, hnone⟩ := p.bracketCount_derivesAll hds
    refine ⟨named, ?_, hnone⟩
    rw [Derivation.value, Value.sequences, bracketCount_enclosed]
    omega
termination_by sizeOf d

theorem bracketCount_derivesAll (p : ParseOptions) {limit depth : Nat} {ts : List Token}
    {ds : List Derivation} (h : DerivesAll limit depth ts ds) :
    ∃ named, bracketCount ts + 2 * named = 2 * Value.sequencesAll (Derivation.values p ds) ∧
      (p.Unnamed → named = 0) := by
  cases h with
  | nil => exact ⟨0, rfl, fun _ => rfl⟩
  | cons hd hds =>
    obtain ⟨first, hfirst, hnone⟩ := p.bracketCount_derives hd
    obtain ⟨others, hrest, hnone'⟩ := p.bracketCount_derivesAll hds
    refine ⟨first + others, ?_, fun hp => by rw [hnone hp, hnone' hp]⟩
    rw [Derivation.values, Value.sequencesAll, bracketCount_append]
    omega
termination_by sizeOf ds

end
end ParseOptions

/-! ## From a value to tokens -/

namespace Writer

/-- The tokens `ts` of the layout `l` and what they derive. The brackets and quotes of
`shape` are written, the characters `bare` are put down as they are, and `v` is what
is expected to be read. -/
structure ReadsAs (w : Writer) (p : ParseOptions) (l : Layout) (ts : List Token) (shape : Value)
    (bare : List Char) (v : Value) : Prop where
  lexes : l.Lexes (w.options.readtable w.brackets) ts
  count : bracketCount ts = 2 * shape.sequences + bare.countP w.brackets.isDelimiter
  derives : w.brackets.Spares bare →
    ∀ limit depth, depth + shape.nesting ≤ limit → ∃ d, Derives limit depth ts d ∧ d.value p = v

/-- The same for the layouts of items, in order. -/
structure AllReadAs (w : Writer) (p : ParseOptions) (ls : List Layout) (ts : List Token)
    (shapes : List Value) (bare : List Char) (items : List Value) : Prop where
  lexes : Layout.LexesAll (w.options.readtable w.brackets) ls ts
  count : bracketCount ts =
    2 * Value.sequencesAll shapes + bare.countP w.brackets.isDelimiter
  derives : w.brackets.Spares bare →
    ∀ limit depth, depth + Value.nestingAll shapes ≤ limit →
    ∃ ds, DerivesAll limit depth ts ds ∧ Derivation.values p ds = items

variable {w : Writer} {p : ParseOptions} {l : Layout} {ls : List Layout} {ts us : List Token}
  {shape v : Value} {shapes items : List Value} {bare others : List Char}

/-! ### Atoms -/

theorem ReadsAs.of_token {content : String} {t : Token} {d : Derivation}
    (hspells : Spells (w.options.readtable w.brackets) content.toList [t])
    (hd : ∀ limit depth, Derives limit depth [t] d) (hvalue : d.value p = v)
    (hbracket : t.isBracket = false) (hsequences : shape.sequences = 0) :
    ReadsAs w p (.atom content) [t] shape [] v := by
  refine ⟨.atom hspells, ?_, fun _ limit depth _ => ⟨d, hd limit depth, hvalue⟩⟩
  rw [hsequences, bracketCount, List.countP_cons_of_neg (by simp [hbracket])]
  rfl

/-- A word that is put down as it is may fall apart; if it does not, it is an atom. -/
theorem readsAs_bare {word : List Char} (hne : word ≠ [])
    (hword : ∀ c ∈ word, isReserved c = false ∧ c ≠ w.options.comment)
    (hread : Reader.atom p (.ofList word) false = v) (hsequences : shape.sequences = 0) :
    ∃ ts, ReadsAs w p (.atom (.ofList word)) ts shape word v := by
  have hchars : ∀ c ∈ word, IsWordChar (w.options.readtable w.brackets) c := hword
  obtain ⟨ts, hspells, hcount, hatom⟩ := exists_spells_bare hchars hne
  refine ⟨ts, .atom (by rwa [String.toList_ofList]), ?_, fun hfree limit depth _ => ?_⟩
  · rw [hsequences, hcount, Nat.mul_zero, Nat.zero_add]
    rfl
  · rw [hatom hfree]
    exact ⟨_, .atom, hread⟩

section
variable (hrt : (w.options.readtable w.brackets).WellFormed)
include hrt

/-- A written symbol is one atom, with a backslash if it needs one. -/
theorem readsAs_symbol {name : String} (h : w.symbol name = .ok l)
    (hsequences : shape.sequences = 0) :
    ∃ ts, ReadsAs w p l ts shape [] (Reader.atom p name
      (Atom.isEscaped (Atom.encode (w.options.readtable w.brackets) name.toList))) := by
  obtain ⟨hname, rfl⟩ := symbol_eq_ok_iff.mp h
  have hne : name.toList ≠ [] := by simpa using hname
  have hrole := Readtable.role_backslash hrt.brackets hrt.backslash_ne
  have hspells := spells_symbol hrole hne
  rw [String.ofList_toList] at hspells
  exact ⟨_, .of_token (by rwa [String.toList_ofList]) (fun _ _ => .atom) (by rw [Derivation.value])
    rfl hsequences⟩

theorem readsAs_string (content : String) (hsequences : shape.sequences = 0) :
    ∃ ts, ReadsAs w p (string content) ts shape [] (.text content) := by
  have hspells := spells_string (Readtable.role_quote hrt.brackets hrt.quote_ne) content.toList
  rw [String.ofList_toList] at hspells
  exact ⟨_, .of_token (by rwa [String.toList_ofList]) (fun _ _ => .string)
    (by rw [Derivation.value]) rfl hsequences⟩

end

/-! ### Sequences and quoted values -/

theorem ReadsAs.quoted (h : ReadsAs w p l ts shape bare v) :
    ReadsAs w p (.quoted l) (.apostrophe :: ts) (.quoted shape) bare (.quoted v) := by
  refine ⟨.quoted h.lexes, ?_, fun hfree limit depth hdepth => ?_⟩
  · rw [Value.sequences, ← h.count]
    rfl
  · rw [Value.nesting] at hdepth
    obtain ⟨d, hd, hvalue⟩ := h.derives hfree limit (depth + 1) (by omega)
    exact ⟨.quoted d, .quoted (by omega) hd, by rw [Derivation.value, hvalue]⟩

theorem AllReadAs.sequence {kind : Bracket} (hkind : kind ∈ w.brackets.kinds)
    (h : AllReadAs w p ls ts shapes bare items) :
    ReadsAs w p (.sequence kind ls) (.opening kind :: (ts ++ [.closing kind]))
      (.sequence kind shapes) bare (.sequence kind items) := by
  refine ⟨.sequence hkind h.lexes, ?_, fun hfree limit depth hdepth => ?_⟩
  · have hcount := h.count
    rw [Value.sequences, bracketCount_enclosed]
    omega
  · rw [Value.nesting] at hdepth
    obtain ⟨ds, hds, hvalues⟩ := h.derives hfree limit (depth + 1) (by omega)
    exact ⟨.sequence kind ds, .sequence (by omega) hds, by rw [Derivation.value, hvalues]⟩

theorem AllReadAs.nil : AllReadAs w p [] [] [] [] [] :=
  ⟨.nil, rfl, fun _ _ _ _ => ⟨[], .nil, rfl⟩⟩

theorem AllReadAs.cons (h : ReadsAs w p l ts shape bare v)
    (h' : AllReadAs w p ls us shapes others items) :
    AllReadAs w p (l :: ls) (ts ++ us) (shape :: shapes) (bare ++ others) (v :: items) := by
  refine ⟨.cons h.lexes h'.lexes, ?_, fun hfree limit depth hdepth => ?_⟩
  · have hfirst := h.count
    have hrest := h'.count
    rw [bracketCount_append, Value.sequencesAll, List.countP_append]
    omega
  · rw [Value.nestingAll] at hdepth
    obtain ⟨d, hd, hvalue⟩ := h.derives
      (fun c hc => hfree c (List.mem_append_left _ hc)) limit depth (by omega)
    obtain ⟨ds, hds, hvalues⟩ := h'.derives
      (fun c hc => hfree c (List.mem_append_right _ hc)) limit depth (by omega)
    exact ⟨d :: ds, .cons hd hds, by rw [Derivation.values, hvalue, hvalues]⟩

/-! ### All values -/

/-- False is written as parentheses with nothing between them. -/
theorem readsAs_false (hrt : (w.options.readtable w.brackets).WellFormed) :
    ∃ ts, ReadsAs w p (.atom "()") ts (.list []) [] (.list []) := by
  have hempty : Spells (w.options.readtable w.brackets) [] [] := fun _ _ _ h => h
  have hspells := Layout.spells_enclosed hrt hrt.brackets.parens_mem hempty
  refine ⟨_, .atom hspells, rfl, fun _ limit depth hdepth => ?_⟩
  have hlt : depth < limit := hdepth
  exact ⟨_, .sequence hlt .nil, rfl⟩

/-- A symbol is read as that symbol. -/
theorem readsAs_symbol_of_unnamed (hp : p.Unnamed)
    (hrt : (w.options.readtable w.brackets).WellFormed) {name : String}
    (h : w.symbol name = .ok l) : ∃ ts, ReadsAs w p l ts (.symbol name) [] (.symbol name) := by
  obtain ⟨hname, -⟩ := symbol_eq_ok_iff.mp h
  obtain ⟨ts, hts⟩ := (readsAs_symbol hrt h rfl : ∃ ts, ReadsAs w p l ts (.symbol name) [] _)
  rw [hp.atom_encode _ hname] at hts
  exact ⟨ts, hts⟩

theorem tupleKind_mem (hw : w.brackets.WellFormed) : w.tupleKind ∈ w.brackets.kinds := by
  unfold tupleKind TupleStyle.kind
  cases w.options.tupleStyle with
  | list => exact hw.parens_mem
  | array => exact hw.square_mem

theorem ne_nil_of_read? {word : List Char} {n : Number} (h : Number.read? word = some n) :
    word ≠ [] := by
  intro hword
  rw [hword] at h
  contradiction

mutual

theorem exists_readsAs_norm (hm : w.Matches p) (hrt : (w.options.readtable w.brackets).WellFormed)
    (v : Value) {l : Layout} (h : v.layout w = .ok l)
    (hcomment : ∀ c ∈ v.bare, c ≠ w.options.comment) :
    ∃ ts, ReadsAs w p l ts (v.norm w.options) v.bare (v.norm w.options) := by
  have hword : ∀ c ∈ v.bare, isReserved c = false ∧ c ≠ w.options.comment :=
    fun c hc => ⟨v.isReserved_bare c hc, hcomment c hc⟩
  match v with
  | .symbol name =>
    rw [Value.norm, Value.bare]
    exact readsAs_symbol_of_unnamed hm.unnamed hrt h
  | .literal content =>
    cases h
    rw [Value.norm, Value.bare]
    exact readsAs_string hrt content rfl
  | .text content =>
    rw [Value.layout, Writer.text] at h
    rw [Value.norm, Value.bare]
    cases hstyle : w.options.textStyle with
    | string =>
      rw [hstyle] at h
      cases h
      exact readsAs_string hrt content rfl
    | symbol =>
      rw [hstyle] at h
      exact readsAs_symbol_of_unnamed hm.unnamed hrt h
  | .int n =>
    cases h
    have hread := Number.read?_intText n
    rw [Value.norm]
    refine readsAs_bare (ne_nil_of_read? hread) hword ?_ rfl
    rw [hm.unnamed.atom_eq, String.toList_ofList, hread]
  | .float x =>
    rw [Value.layout] at h
    obtain ⟨hfinite, rfl⟩ := float_eq_ok_iff.mp h
    have hread := Binary64.read?_text hfinite
    rw [Value.norm]
    refine readsAs_bare (ne_nil_of_read? hread) hword ?_ rfl
    rw [hm.unnamed.atom_eq, String.toList_ofList, hread]
  | .bool true =>
    cases h
    rw [Writer.bool, if_pos rfl, hm.trueName, Value.norm]
    refine readsAs_bare (List.cons_ne_nil 't' []) hword ?_ rfl
    rw [hm.unnamed.atom_eq]
    rfl
  | .bool false =>
    cases h
    rw [Writer.bool, if_neg Bool.false_ne_true, hm.falseName, Value.norm, Value.bare]
    exact readsAs_false hrt
  | .nil =>
    cases h
    rw [Writer.nil, hm.nilName, Value.norm]
    refine readsAs_bare (List.cons_ne_nil 'n' ['i', 'l']) hword ?_ rfl
    rw [hm.unnamed.atom_eq]
    rfl
  | .quoted inner =>
    obtain ⟨l', hinner, rfl⟩ := Value.layout_quoted_eq_ok_iff.mp h
    rw [Value.bare] at hcomment ⊢
    obtain ⟨ts, hts⟩ := exists_readsAs_norm hm hrt inner hinner hcomment
    rw [Value.norm]
    exact ⟨_, hts.quoted⟩
  | .sequence kind items =>
    obtain ⟨hknown, ls, hitems, rfl⟩ := Value.layout_sequence_eq_ok_iff.mp h
    have hkind := hrt.brackets.contains_iff.mp hknown
    rw [Value.bare] at hcomment ⊢
    obtain ⟨ts, hts⟩ := exists_allReadAs_norm hm hrt items hitems hcomment
    rw [Value.norm]
    exact ⟨_, hts.sequence hkind⟩
  | .tuple items =>
    obtain ⟨ls, hitems, rfl⟩ := Value.layout_tuple_eq_ok_iff.mp h
    rw [Value.bare] at hcomment ⊢
    obtain ⟨ts, hts⟩ := exists_allReadAs_norm hm hrt items hitems hcomment
    rw [Value.norm]
    exact ⟨_, hts.sequence (tupleKind_mem hrt.brackets)⟩

theorem exists_allReadAs_norm (hm : w.Matches p) (hrt : (w.options.readtable w.brackets).WellFormed)
    (items : List Value) {ls : List Layout} (h : Value.layouts w items = .ok ls)
    (hcomment : ∀ c ∈ Value.bareAll items, c ≠ w.options.comment) :
    ∃ ts, AllReadAs w p ls ts (Value.normAll w.options items) (Value.bareAll items)
      (Value.normAll w.options items) := by
  match items with
  | [] =>
    cases h
    exact ⟨[], .nil⟩
  | v :: rest =>
    obtain ⟨l, hfirst, ls', hrest, rfl⟩ := Value.layouts_cons_eq_ok_iff.mp h
    rw [Value.bareAll] at hcomment ⊢
    obtain ⟨ts, hts⟩ := exists_readsAs_norm hm hrt v hfirst
      fun c hc => hcomment c (List.mem_append_left _ hc)
    obtain ⟨us, hus⟩ := exists_allReadAs_norm hm hrt rest hrest
      fun c hc => hcomment c (List.mem_append_right _ hc)
    rw [Value.normAll]
    exact ⟨ts ++ us, .cons hts hus⟩

end

end Writer
end SExpr
