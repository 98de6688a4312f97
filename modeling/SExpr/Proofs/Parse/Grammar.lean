import SExpr.Parse
import SExpr.Proofs.Except

/-! # What is read, as a grammar

An expression is a string, an atom, an apostrophe with an expression, or a
bracket around expressions. `Derives` says so of tokens, with the number of
brackets and apostrophes around them, and keeps the rules that were used as a
`Derivation`; the value of a text is computed from its derivation.

`parse_eq_ok_iff` ties the reader to the grammar: a text is read as `values`
exactly when its tokens have a derivation with these values, and then they have
one derivation only. -/

namespace SExpr

/-- The rules that derive an expression. -/
inductive Derivation
  | string (content : String)
  | atom (content : String) (escaped : Bool)
  | quoted (inner : Derivation)
  | sequence (kind : Bracket) (items : List Derivation)

namespace Derivation

mutual

/-- The value that a reader builds along a derivation. -/
def value (o : ParseOptions) : Derivation → Value
  | .string content => .text content
  | .atom content escaped => Reader.atom o content escaped
  | .quoted inner => .quoted (inner.value o)
  | .sequence kind items => .sequence kind (values o items)

/-- The values of all derivations, in order. -/
def values (o : ParseOptions) : List Derivation → List Value
  | [] => []
  | d :: ds => d.value o :: values o ds

end
end Derivation

mutual

/-- `Derives limit depth ts d`: inside `depth` brackets and apostrophes the tokens
`ts` are one expression. Fewer than `limit` may enclose another one. -/
inductive Derives (limit : Nat) : Nat → List Token → Derivation → Prop
  | string {depth : Nat} {content : String} :
      Derives limit depth [.string content] (.string content)
  | atom {depth : Nat} {content : String} {escaped : Bool} :
      Derives limit depth [.atom content escaped] (.atom content escaped)
  | quoted {depth : Nat} {ts : List Token} {d : Derivation} : depth < limit →
      Derives limit (depth + 1) ts d → Derives limit depth (.apostrophe :: ts) (.quoted d)
  | sequence {depth : Nat} {kind : Bracket} {ts : List Token} {ds : List Derivation} :
      depth < limit → DerivesAll limit (depth + 1) ts ds →
      Derives limit depth (.opening kind :: (ts ++ [.closing kind])) (.sequence kind ds)

/-- The tokens are expressions, one after another. -/
inductive DerivesAll (limit : Nat) : Nat → List Token → List Derivation → Prop
  | nil {depth : Nat} : DerivesAll limit depth [] []
  | cons {depth : Nat} {ts us : List Token} {d : Derivation} {ds : List Derivation} :
      Derives limit depth ts d → DerivesAll limit depth us ds →
      DerivesAll limit depth (ts ++ us) (d :: ds)

end

/-- The whole text is cut into the tokens `ts`: none of its strings is left open. -/
def Tokenizes (rt : Readtable) (source : String) (ts : List Token) : Prop :=
  (tokenize rt source).tokens.map Located.token = ts ∧ (tokenize rt source).openString = none

namespace Reader

variable {o : ParseOptions} {openString : Option Span}

/-! ## What is read has a derivation -/

mutual

theorem expression_sound {depth : Nat} {t : Located} {ts : List Located} {r : Taken Value ts}
    (h : expression o openString depth t ts = .ok r) :
    ∃ taken d, t :: ts = taken ++ r.rest ∧
      Derives o.maxDepth depth (taken.map Located.token) d ∧ d.value o = r.value := by
  rw [expression.eq_def] at h
  match ht : t.token with
  | .string content =>
    simp only [ht, Except.ok.injEq] at h
    subst h
    exact ⟨[t], .string content, rfl, by simpa [ht] using .string, rfl⟩
  | .atom content escaped =>
    simp only [ht, Except.ok.injEq] at h
    subst h
    exact ⟨[t], .atom content escaped, rfl, by simpa [ht] using .atom, rfl⟩
  | .closing kind => simp [ht] at h
  | .opening kind =>
    simp only [ht] at h
    split at h
    · contradiction
    · rename_i hlimit
      obtain ⟨r', hitems, hr⟩ := bind_eq_ok_iff.mp h
      cases hr
      obtain ⟨taken, ds, closer, hts, hcloser, hds, hvalues⟩ := items_sound hitems
      refine ⟨t :: (taken ++ [closer]), .sequence kind ds, by simp [hts], ?_, ?_⟩
      · simpa [ht, hcloser] using Derives.sequence (Nat.lt_of_not_le hlimit) hds
      · simp [Derivation.value, hvalues]
  | .apostrophe =>
    simp only [ht] at h
    cases ts with
    | nil => contradiction
    | cons next ts' =>
      dsimp only at h
      split at h
      · contradiction
      · split at h
        · contradiction
        · rename_i hlimit
          obtain ⟨r', hinner, hr⟩ := bind_eq_ok_iff.mp h
          cases hr
          obtain ⟨taken, d, hts, hd, hvalue⟩ := expression_sound hinner
          refine ⟨t :: taken, .quoted d, by simp [hts], ?_, ?_⟩
          · simpa [ht] using Derives.quoted (Nat.lt_of_not_le hlimit) hd
          · simp [Derivation.value, hvalue]
termination_by 2 * ts.length + 1

theorem items_sound {depth : Nat} {kind : Bracket} {opened : Span} {ts : List Located}
    {r : Taken (List Value) ts} (h : items o openString depth kind opened ts = .ok r) :
    ∃ taken ds closer, ts = taken ++ closer :: r.rest ∧ closer.token = .closing kind ∧
      DerivesAll o.maxDepth depth (taken.map Located.token) ds ∧
      Derivation.values o ds = r.value := by
  rw [items.eq_def] at h
  cases ts with
  | nil => contradiction
  | cons t ts' =>
    dsimp only at h
    split at h
    · rename_i ht
      cases h
      exact ⟨[], [], t, rfl, ht, .nil, rfl⟩
    · obtain ⟨item, hitem, h⟩ := bind_eq_ok_iff.mp h
      obtain ⟨more, hmore, hr⟩ := bind_eq_ok_iff.mp h
      cases hr
      have hle := item.le
      obtain ⟨taken, d, hts, hd, hvalue⟩ := expression_sound hitem
      obtain ⟨taken', ds, closer, hrest, hcloser, hds, hvalues⟩ := items_sound hmore
      refine ⟨taken ++ taken', d :: ds, closer, by simp [hts, hrest], hcloser, ?_, ?_⟩
      · simpa using DerivesAll.cons hd hds
      · simp [Derivation.values, hvalue, hvalues]
termination_by 2 * ts.length
decreasing_by all_goals subst_vars; simp only [List.length_cons]; omega

end

theorem program_sound {ts : List Located} {values : List Value}
    (h : program o openString ts = .ok values) :
    openString = none ∧ ∃ ds, DerivesAll o.maxDepth 0 (ts.map Located.token) ds ∧
      Derivation.values o ds = values := by
  rw [program.eq_def] at h
  cases ts with
  | nil =>
    cases openString with
    | some span => contradiction
    | none => cases h; exact ⟨rfl, [], .nil, rfl⟩
  | cons t ts' =>
    obtain ⟨first, hfirst, h⟩ := bind_eq_ok_iff.mp h
    obtain ⟨values', hmore, hr⟩ := bind_eq_ok_iff.mp h
    cases hr
    obtain ⟨taken, d, hts, hd, hvalue⟩ := expression_sound hfirst
    obtain ⟨hopen, ds, hds, hvalues⟩ := program_sound hmore
    refine ⟨hopen, d :: ds, ?_, by simp [Derivation.values, hvalue, hvalues]⟩
    rw [hts, List.map_append]
    exact .cons hd hds
termination_by ts.length
decreasing_by subst_vars; exact Nat.lt_succ_of_le first.le

/-! ## What has a derivation is read -/

/-- No expression starts with a closer. -/
theorem ne_closing_of_derives {limit depth : Nat} {t : Token} {ts : List Token} {d : Derivation}
    (h : Derives limit depth (t :: ts) d) (kind : Bracket) : t ≠ .closing kind := by
  cases h <;> exact Token.noConfusion

theorem exists_cons_of_derives {limit depth : Nat} {ts : List Token} {d : Derivation}
    (h : Derives limit depth ts d) : ∃ t rest, ts = t :: rest := by
  cases h <;> exact ⟨_, _, rfl⟩

mutual

theorem expression_complete {depth : Nat} {tokens : List Token} {d : Derivation}
    (h : Derives o.maxDepth depth tokens d) {t : Located} {ts : List Located}
    (htokens : (t :: ts).map Located.token = tokens) (rest : List Located) :
    ∃ le, expression o openString depth t (ts ++ rest) = .ok ⟨d.value o, rest, le⟩ := by
  cases h with
  | string | atom =>
    obtain ⟨ht, hts⟩ := List.cons.inj htokens
    obtain rfl := List.map_eq_nil_iff.mp hts
    rw [expression.eq_def]
    simp only [ht]
    exact ⟨Nat.le_refl _, rfl⟩
  | @quoted _ inner d hlimit hd =>
    obtain ⟨ht, hts⟩ := List.cons.inj htokens
    obtain ⟨first, others, rfl⟩ := exists_cons_of_derives hd
    obtain ⟨next, ts', rfl, hnext, -⟩ := List.map_eq_cons_iff.mp hts
    obtain ⟨le, hinner⟩ := expression_complete hd hts rest
    have hcloser := ne_closing_of_derives hd
    refine ⟨Nat.le_succ_of_le le, ?_⟩
    rw [expression.eq_def]
    simp only [ht, List.cons_append, if_neg (Nat.not_le_of_lt hlimit), hinner]
    split
    · rename_i kind hkind
      exact absurd (hnext.symm.trans hkind) (hcloser kind)
    · rfl
  | @sequence _ kind inner ds hlimit hds =>
    obtain ⟨ht, hts⟩ := List.cons.inj htokens
    obtain ⟨taken, last, rfl, htaken, hlast⟩ := List.map_eq_append_iff.mp hts
    obtain ⟨closer, others, rfl, hcloser, hothers⟩ := List.map_eq_cons_iff.mp hlast
    obtain rfl := List.map_eq_nil_iff.mp hothers
    obtain ⟨le, hitems⟩ := items_complete hds htaken hcloser t.span rest
    rw [List.append_assoc, List.singleton_append]
    refine ⟨le, ?_⟩
    rw [expression.eq_def]
    simp only [ht, if_neg (Nat.not_le_of_lt hlimit), hitems]
    rfl
termination_by sizeOf d

theorem items_complete {depth : Nat} {tokens : List Token} {ds : List Derivation}
    (h : DerivesAll o.maxDepth depth tokens ds) {taken : List Located}
    (htokens : taken.map Located.token = tokens) {closer : Located} {kind : Bracket}
    (hcloser : closer.token = .closing kind) (opened : Span) (rest : List Located) :
    ∃ le, items o openString depth kind opened (taken ++ closer :: rest) =
      .ok ⟨Derivation.values o ds, rest, le⟩ := by
  cases h with
  | nil =>
    obtain rfl := List.map_eq_nil_iff.mp htokens
    rw [List.nil_append, items.eq_def]
    exact ⟨Nat.le_succ _, if_pos hcloser⟩
  | @cons _ first others d ds hd hds =>
    obtain ⟨front, back, rfl, hfront, hback⟩ := List.map_eq_append_iff.mp htokens
    obtain ⟨token, tail, rfl⟩ := exists_cons_of_derives hd
    obtain ⟨t, front', rfl, ht, -⟩ := List.map_eq_cons_iff.mp hfront
    obtain ⟨le, hitem⟩ := expression_complete hd hfront (back ++ closer :: rest)
    obtain ⟨le', hmore⟩ := items_complete hds hback hcloser opened rest
    have hne : t.token ≠ .closing kind := ht ▸ ne_closing_of_derives hd kind
    rw [List.append_assoc, List.cons_append, items.eq_def]
    simp only [if_neg hne, hitem, hmore, bind, Except.bind]
    exact ⟨Nat.le_succ_of_le (Nat.le_trans le' le), rfl⟩
termination_by sizeOf ds

end

/-- Tokens that have a derivation are read whatever comes after them. -/
theorem program_append {tokens : List Token} {ds : List Derivation}
    (h : DerivesAll o.maxDepth 0 tokens ds) {ts : List Located}
    (htokens : ts.map Located.token = tokens) (rest : List Located) :
    program o openString (ts ++ rest) =
      (program o openString rest).map (Derivation.values o ds ++ ·) := by
  cases h with
  | nil =>
    obtain rfl := List.map_eq_nil_iff.mp htokens
    rw [List.nil_append]
    cases program o openString rest <;> rfl
  | @cons _ first others d ds hd hds =>
    obtain ⟨front, back, rfl, hfront, hback⟩ := List.map_eq_append_iff.mp htokens
    obtain ⟨token, tail, rfl⟩ := exists_cons_of_derives hd
    obtain ⟨t, front', rfl, -, -⟩ := List.map_eq_cons_iff.mp hfront
    obtain ⟨le, hfirst⟩ : ∃ le, expression o openString 0 t (front' ++ (back ++ rest)) =
        .ok ⟨d.value o, back ++ rest, le⟩ := expression_complete hd hfront (back ++ rest)
    have hmore := program_append hds hback rest
    rw [List.append_assoc, List.cons_append, program.eq_def]
    simp only [hfirst, hmore, bind, Except.bind]
    cases program o openString rest <;> rfl
termination_by sizeOf ds

theorem program_complete {tokens : List Token} {ds : List Derivation}
    (h : DerivesAll o.maxDepth 0 tokens ds) {ts : List Located}
    (htokens : ts.map Located.token = tokens) :
    program o none ts = .ok (Derivation.values o ds) := by
  have hnil : program o none [] = .ok [] := by
    rw [program.eq_def]
  have happend : program o none (ts ++ []) = _ := program_append h htokens []
  rwa [hnil, List.append_nil, Except.map, List.append_nil] at happend

end Reader

/-! ## One derivation for each list of tokens -/

/-- Nothing follows, or a closer does: here expressions in a row end. -/
def Ends (ts : List Token) : Prop := ts = [] ∨ ∃ kind rest, ts = .closing kind :: rest

theorem Derives.not_ends {limit depth : Nat} {ts : List Token} {d : Derivation}
    (h : Derives limit depth ts d) (us : List Token) : ¬ Ends (ts ++ us) := by
  obtain ⟨t, rest, rfl⟩ := Reader.exists_cons_of_derives h
  intro hends
  rcases hends with hnil | ⟨kind, rest', hcons⟩
  · exact List.cons_ne_nil _ _ hnil
  · exact Reader.ne_closing_of_derives h kind (List.cons.inj hcons).1

mutual

theorem Derives.unique {limit depth limit' depth' : Nat} {ts ts' r r' : List Token}
    {d d' : Derivation} (h : Derives limit depth ts d) (h' : Derives limit' depth' ts' d')
    (heq : ts ++ r = ts' ++ r') : d = d' ∧ r = r' := by
  cases h with
  | string | atom => cases h' <;> simp_all
  | quoted _ hd =>
    cases h' with
    | quoted _ hd' =>
      obtain ⟨rfl, rfl⟩ := hd.unique hd' (List.cons.inj heq).2
      exact ⟨rfl, rfl⟩
    | string | atom | sequence => simp at heq
  | sequence _ hds =>
    cases h' with
    | sequence _ hds' =>
      simp only [List.cons_append, List.append_assoc, List.nil_append, List.cons.injEq,
        Token.opening.injEq] at heq
      obtain ⟨rfl, heq⟩ := heq
      obtain ⟨rfl, hrest⟩ := hds.unique hds' (.inr ⟨_, _, rfl⟩) (.inr ⟨_, _, rfl⟩) heq
      exact ⟨rfl, (List.cons.inj hrest).2⟩
    | string | atom | quoted => simp at heq
termination_by sizeOf d

theorem DerivesAll.unique {limit depth limit' depth' : Nat} {ts ts' r r' : List Token}
    {ds ds' : List Derivation} (h : DerivesAll limit depth ts ds)
    (h' : DerivesAll limit' depth' ts' ds') (hr : Ends r) (hr' : Ends r')
    (heq : ts ++ r = ts' ++ r') : ds = ds' ∧ r = r' := by
  cases h with
  | nil =>
    cases h' with
    | nil => exact ⟨rfl, heq⟩
    | cons hd' _ =>
      rw [List.nil_append, List.append_assoc] at heq
      exact absurd (heq ▸ hr) (hd'.not_ends _)
  | cons hd hds =>
    rw [List.append_assoc] at heq
    cases h' with
    | nil =>
      rw [List.nil_append] at heq
      exact absurd (heq.symm ▸ hr') (hd.not_ends _)
    | cons hd' hds' =>
      rw [List.append_assoc] at heq
      obtain ⟨rfl, hrest⟩ := hd.unique hd' heq
      obtain ⟨rfl, rfl⟩ := hds.unique hds' hr hr' hrest
      exact ⟨rfl, rfl⟩
termination_by sizeOf ds

end

theorem parse_sound {brackets : BracketTable} {o : ParseOptions} {source : String}
    {values : List Value} (h : parse brackets o source = .ok values) :
    ∃ ts ds, Tokenizes (o.readtable brackets) source ts ∧
      DerivesAll o.maxDepth 0 ts ds ∧ Derivation.values o ds = values := by
  obtain ⟨hopen, ds, hds, hvalues⟩ := Reader.program_sound h
  exact ⟨_, ds, ⟨rfl, hopen⟩, hds, hvalues⟩

theorem parse_complete {brackets : BracketTable} {o : ParseOptions} {source : String}
    {ts : List Token} {ds : List Derivation} (hts : Tokenizes (o.readtable brackets) source ts)
    (hds : DerivesAll o.maxDepth 0 ts ds) :
    parse brackets o source = .ok (Derivation.values o ds) := by
  obtain ⟨htokens, hopen⟩ := hts
  simp only [parse, hopen]
  exact Reader.program_complete hds htokens

/-- A text is read exactly when its tokens are expressions, and its values are
those of the one derivation that the tokens have. -/
theorem parse_eq_ok_iff (brackets : BracketTable) (o : ParseOptions) (source : String)
    (values : List Value) :
    (parse brackets o source = .ok values ↔
      ∃ ts ds, Tokenizes (o.readtable brackets) source ts ∧
        DerivesAll o.maxDepth 0 ts ds ∧ Derivation.values o ds = values) ∧
    ∀ ts ds ds', DerivesAll o.maxDepth 0 ts ds → DerivesAll o.maxDepth 0 ts ds' → ds = ds' := by
  refine ⟨⟨parse_sound, ?_⟩, ?_⟩
  · intro h
    obtain ⟨ts, ds, hts, hds, rfl⟩ := h
    exact parse_complete hts hds
  · intro ts ds ds' h h'
    exact (h.unique h' (.inl rfl) (.inl rfl) rfl).1

end SExpr
