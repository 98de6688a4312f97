import SExpr.Proofs.Parse.Grammar
import SExpr.Proofs.Parse.Relocate

/-! # The nesting limit

Each opener and apostrophe of a text has a level, the number of brackets and apostrophes
around it. A limit that is above all levels never matters, and any other stops the reader
at the first token whose level it is: `parse_limit` says so, and that a result for which
the limit did not matter is the result at every higher limit. -/

namespace SExpr

/-- Openers and apostrophes begin what goes around other tokens. -/
def Token.encloses : Token → Bool
  | .opening _ | .apostrophe => true
  | _ => false

/-- The openers and apostrophes, in order. -/
def enclosers (ts : List Located) : List Located := ts.filter (·.token.encloses)

namespace Derivation

mutual

/-- The levels of the openers and apostrophes in order, if `depth` brackets and
apostrophes are around everything. -/
def levels (depth : Nat) : Derivation → List Nat
  | .string _ | .atom _ _ => []
  | .quoted inner => depth :: inner.levels (depth + 1)
  | .sequence _ items => depth :: levelsAll (depth + 1) items

def levelsAll (depth : Nat) : List Derivation → List Nat
  | [] => []
  | d :: ds => d.levels depth ++ levelsAll depth ds

end

/-- The largest number of brackets and apostrophes in each other, which is one more than
the highest level. -/
def nesting (ds : List Derivation) : Nat := ((levelsAll 0 ds).map (· + 1)).foldr max 0

end Derivation

/-- The first of the openers and apostrophes that has the level `level`. -/
def firstAt (level : Nat) (ts : List Located) (levels : List Nat) : Option Located :=
  (((enclosers ts).zip levels).find? fun p => p.2 = level).map Prod.fst

/-- The limit was met. -/
def TooDeep {α : Type} (r : Except ParseError α) : Prop :=
  ∃ limit place, r = .error ⟨.nestingTooDeep limit, place⟩

/-! ## Levels -/

namespace Derivation

mutual

/-- Between the outermost level and any other no level is left out. -/
theorem mem_levels_of_le {d : Derivation} {depth m n : Nat} (h : n ∈ d.levels depth)
    (hdepth : depth ≤ m) (hm : m ≤ n) : m ∈ d.levels depth := by
  match d with
  | .string _ | .atom _ _ => contradiction
  | .quoted inner =>
    rw [levels, List.mem_cons] at h ⊢
    rcases h with rfl | h
    · exact .inl (Nat.le_antisymm hm hdepth)
    · exact (Nat.eq_or_lt_of_le hdepth).imp Eq.symm fun hlt => mem_levels_of_le h hlt hm
  | .sequence _ items =>
    rw [levels, List.mem_cons] at h ⊢
    rcases h with rfl | h
    · exact .inl (Nat.le_antisymm hm hdepth)
    · exact (Nat.eq_or_lt_of_le hdepth).imp Eq.symm fun hlt => mem_levelsAll_of_le h hlt hm

theorem mem_levelsAll_of_le {ds : List Derivation} {depth m n : Nat} (h : n ∈ levelsAll depth ds)
    (hdepth : depth ≤ m) (hm : m ≤ n) : m ∈ levelsAll depth ds := by
  match ds with
  | [] => contradiction
  | d :: ds =>
    rw [levelsAll, List.mem_append] at h ⊢
    exact h.imp (fun h => mem_levels_of_le h hdepth hm) fun h => mem_levelsAll_of_le h hdepth hm

end

theorem nesting_le_iff {ds : List Derivation} {limit : Nat} :
    nesting ds ≤ limit ↔ ∀ n ∈ levelsAll 0 ds, n < limit := by
  unfold nesting
  induction levelsAll 0 ds with
  | nil => simp
  | cons n ns ih => rw [List.map_cons, List.foldr_cons, Nat.max_le, ih, List.forall_mem_cons]; rfl

mutual

/-- A limit has no part in values. -/
theorem value_limit (o : ParseOptions) (limit : Nat) (d : Derivation) :
    d.value { o with maxDepth := limit } = d.value o := by
  match d with
  | .string _ | .atom _ _ => rfl
  | .quoted inner => exact congrArg Value.quoted (inner.value_limit o limit)
  | .sequence kind items => exact congrArg (Value.sequence kind) (values_limit o limit items)

theorem values_limit (o : ParseOptions) (limit : Nat) (ds : List Derivation) :
    values { o with maxDepth := limit } ds = values o ds := by
  match ds with
  | [] => rfl
  | d :: ds => rw [values, values, d.value_limit o limit, values_limit o limit ds]

end
end Derivation

mutual

/-- A derivation stays one under every limit above its levels. -/
theorem Derives.relimit {limit limit' depth : Nat} {ts : List Token} {d : Derivation}
    (h : Derives limit depth ts d) (hlevels : ∀ n ∈ d.levels depth, n < limit') :
    Derives limit' depth ts d := by
  match h with
  | .string => exact .string
  | .atom => exact .atom
  | .quoted _ hd =>
    obtain ⟨hdepth, hinner⟩ := List.forall_mem_cons.mp hlevels
    exact .quoted hdepth (hd.relimit hinner)
  | .sequence _ hds =>
    obtain ⟨hdepth, hitems⟩ := List.forall_mem_cons.mp hlevels
    exact .sequence hdepth (hds.relimit hitems)

theorem DerivesAll.relimit {limit limit' depth : Nat} {ts : List Token} {ds : List Derivation}
    (h : DerivesAll limit depth ts ds) (hlevels : ∀ n ∈ Derivation.levelsAll depth ds, n < limit') :
    DerivesAll limit' depth ts ds := by
  match h with
  | .nil => exact .nil
  | .cons hd hds =>
    obtain ⟨hfirst, hrest⟩ := List.forall_mem_append.mp hlevels
    exact .cons (hd.relimit hfirst) (hds.relimit hrest)

end

mutual

theorem Derives.length_levels {limit depth : Nat} {ts : List Token} {d : Derivation}
    (h : Derives limit depth ts d) :
    (ts.filter Token.encloses).length = (d.levels depth).length := by
  match h with
  | .string | .atom => rfl
  | .quoted _ hd => exact congrArg (· + 1) hd.length_levels
  | .sequence _ hds =>
    rw [List.filter_cons_of_pos rfl, List.filter_append, List.filter_cons_of_neg Bool.noConfusion,
      List.filter_nil, List.append_nil, List.length_cons, hds.length_levels]
    rfl

theorem DerivesAll.length_levels {limit depth : Nat} {ts : List Token} {ds : List Derivation}
    (h : DerivesAll limit depth ts ds) :
    (ts.filter Token.encloses).length = (Derivation.levelsAll depth ds).length := by
  match h with
  | .nil => rfl
  | .cons hd hds =>
    rw [List.filter_append, List.length_append, hd.length_levels, hds.length_levels,
      Derivation.levelsAll, List.length_append]

end

@[simp]
theorem enclosers_append (ts us : List Located) :
    enclosers (ts ++ us) = enclosers ts ++ enclosers us := List.filter_append ts us

theorem length_enclosers (ts : List Located) :
    (enclosers ts).length = ((ts.map Located.token).filter Token.encloses).length := by
  rw [List.filter_map, List.length_map]
  rfl

/-! ## The first token at a level -/

section
variable {level n : Nat} {t : Located} {ts us : List Located} {ns ms : List Nat}

theorem firstAt_cons (ht : t.token.encloses = true) :
    firstAt level (t :: ts) (n :: ns) = if n = level then some t else firstAt level ts ns := by
  have hts : enclosers (t :: ts) = t :: enclosers ts := List.filter_cons_of_pos ht
  rw [firstAt, hts, List.zip_cons_cons, List.find?_cons]
  by_cases hn : n = level <;> simp [hn, firstAt]

/-- What is no opener and no apostrophe counts for nothing. -/
theorem firstAt_concat (ht : t.token.encloses = false) :
    firstAt level (ts ++ [t]) ns = firstAt level ts ns := by
  have hlast : enclosers [t] = [] := List.filter_cons_of_neg (Bool.eq_false_iff.mp ht)
  rw [firstAt, enclosers_append, hlast, List.append_nil, firstAt]

theorem firstAt_append (h : (enclosers ts).length = ns.length) :
    firstAt level (ts ++ us) (ns ++ ms) = (firstAt level ts ns).or (firstAt level us ms) := by
  rw [firstAt, enclosers_append, List.zip_append h, List.find?_append, Option.map_or, firstAt,
    firstAt]

theorem firstAt_eq_none_iff (h : (enclosers ts).length = ns.length) :
    firstAt level ts ns = none ↔ level ∉ ns := by
  rw [firstAt, Option.map_eq_none_iff, List.find?_eq_none]
  have hns : ((enclosers ts).zip ns).map Prod.snd = ns :=
    List.map_snd_zip (Nat.le_of_eq h.symm)
  constructor
  · intro hnone hlevel
    obtain ⟨p, hp, hsnd⟩ := List.mem_map.mp (hns.symm ▸ hlevel)
    exact hnone p hp (decide_eq_true hsnd)
  · intro hlevel p hp hsnd
    have hmem : p.2 ∈ ns := hns ▸ List.mem_map_of_mem (f := Prod.snd) hp
    exact hlevel (of_decide_eq_true hsnd ▸ hmem)

end

namespace Reader

variable {o : ParseOptions} {openString : Option Span}

/-! ## A limit that is too low -/

/-- An expression none of whose tokens is at the limit is all below it. -/
theorem derives_of_firstAt {limit depth : Nat} {ts : List Located} {d : Derivation}
    (h : Derives limit depth (ts.map Located.token) d) (hdepth : depth ≤ o.maxDepth)
    (hfirst : firstAt o.maxDepth ts (d.levels depth) = none) :
    Derives o.maxDepth depth (ts.map Located.token) d := by
  have hlength := (length_enclosers ts).trans h.length_levels
  have hnone := (firstAt_eq_none_iff hlength).mp hfirst
  refine h.relimit fun n hn => Nat.lt_of_not_le fun hle => ?_
  exact hnone (Derivation.mem_levels_of_le hn hdepth hle)

/-- A quote is entered once it is known that an expression follows. -/
theorem expression_apostrophe {depth : Nat} {t next : Located} {ts : List Located}
    (ht : t.token = .apostrophe) (hnext : ∀ kind, next.token ≠ .closing kind) :
    expression o openString depth t (next :: ts) =
      if o.maxDepth ≤ depth then .error ⟨.nestingTooDeep o.maxDepth, t.span⟩
      else (expression o openString (depth + 1) next ts).map fun r =>
        ⟨.quoted r.value, r.rest, Nat.le_succ_of_le r.le⟩ := by
  rw [expression.eq_def]
  simp only [ht]
  split
  · rfl
  · cases expression o openString (depth + 1) next ts <;> rfl

mutual

theorem expression_tooDeep {limit depth : Nat} {tokens : List Token} {d : Derivation}
    (h : Derives limit depth tokens d) (hdepth : depth ≤ o.maxDepth) {t : Located}
    {ts : List Located} (htokens : (t :: ts).map Located.token = tokens) {first : Located}
    (hfirst : firstAt o.maxDepth (t :: ts) (d.levels depth) = some first) (rest : List Located) :
    expression o openString depth t (ts ++ rest) =
      .error ⟨.nestingTooDeep o.maxDepth, first.span⟩ := by
  cases h with
  | string | atom => simp [firstAt, Derivation.levels] at hfirst
  | @quoted _ inner d _ hd =>
    obtain ⟨ht, hts⟩ := List.cons.inj htokens
    obtain ⟨head, tail, rfl⟩ := exists_cons_of_derives hd
    obtain ⟨next, ts', rfl, hnext, -⟩ := List.map_eq_cons_iff.mp hts
    have hcloser : ∀ kind, next.token ≠ .closing kind := fun kind =>
      hnext ▸ ne_closing_of_derives hd kind
    rw [Derivation.levels, firstAt_cons (by rw [ht]; rfl)] at hfirst
    rw [List.cons_append, expression_apostrophe ht hcloser]
    by_cases hlimit : depth = o.maxDepth
    · rw [if_pos hlimit] at hfirst
      rw [if_pos (Nat.le_of_eq hlimit.symm), Option.some.inj hfirst]
    · have hlt := Nat.lt_of_le_of_ne hdepth hlimit
      rw [if_neg hlimit] at hfirst
      rw [if_neg (Nat.not_le_of_lt hlt), expression_tooDeep hd hlt hts hfirst rest]
      rfl
  | @sequence _ kind inner ds _ hds =>
    obtain ⟨ht, hts⟩ := List.cons.inj htokens
    obtain ⟨taken, last, rfl, htaken, hlast⟩ := List.map_eq_append_iff.mp hts
    obtain ⟨closer, others, rfl, hcloser, hothers⟩ := List.map_eq_cons_iff.mp hlast
    obtain rfl := List.map_eq_nil_iff.mp hothers
    rw [Derivation.levels, firstAt_cons (by rw [ht]; rfl),
      firstAt_concat (by rw [hcloser]; rfl)] at hfirst
    rw [expression.eq_def]
    simp only [ht]
    by_cases hlimit : depth = o.maxDepth
    · rw [if_pos hlimit] at hfirst
      rw [if_pos (Nat.le_of_eq hlimit.symm), Option.some.inj hfirst]
    · have hlt := Nat.lt_of_le_of_ne hdepth hlimit
      rw [if_neg hlimit] at hfirst
      rw [if_neg (Nat.not_le_of_lt hlt), List.append_assoc,
        items_tooDeep hds hlt htaken hfirst kind t.span ([closer] ++ rest)]
      rfl
termination_by sizeOf d

theorem items_tooDeep {limit depth : Nat} {tokens : List Token} {ds : List Derivation}
    (h : DerivesAll limit depth tokens ds) (hdepth : depth ≤ o.maxDepth) {ts : List Located}
    (htokens : ts.map Located.token = tokens) {first : Located}
    (hfirst : firstAt o.maxDepth ts (Derivation.levelsAll depth ds) = some first)
    (kind : Bracket) (opened : Span) (rest : List Located) :
    items o openString depth kind opened (ts ++ rest) =
      .error ⟨.nestingTooDeep o.maxDepth, first.span⟩ := by
  cases h with
  | nil => simp [firstAt, Derivation.levelsAll] at hfirst
  | @cons _ _ _ d ds hd hds =>
    obtain ⟨front, back, rfl, hfront, hback⟩ := List.map_eq_append_iff.mp htokens
    obtain ⟨token, tail, rfl⟩ := exists_cons_of_derives hd
    obtain ⟨t, front', rfl, ht, -⟩ := List.map_eq_cons_iff.mp hfront
    rw [← hfront] at hd
    have hne : t.token ≠ .closing kind := ne_closing_of_derives hd kind
    rw [Derivation.levelsAll,
      firstAt_append ((length_enclosers _).trans hd.length_levels)] at hfirst
    rw [List.append_assoc, List.cons_append, items.eq_def]
    simp only [if_neg hne]
    -- the token is in the first item, or that item is read and the token is behind it
    cases hitem : firstAt o.maxDepth (t :: front') (d.levels depth) with
    | some place =>
      rw [hitem, Option.some_or] at hfirst
      rw [expression_tooDeep hd hdepth rfl (hitem.trans hfirst) (back ++ rest)]
      rfl
    | none =>
      rw [hitem, Option.none_or] at hfirst
      obtain ⟨le, hread⟩ : ∃ le, expression o openString depth t (front' ++ (back ++ rest)) =
          .ok ⟨d.value o, back ++ rest, le⟩ :=
        expression_complete (derives_of_firstAt hd hdepth hitem) rfl (back ++ rest)
      simp only [hread, items_tooDeep hds hdepth hback hfirst kind opened rest, bind, Except.bind]
termination_by sizeOf ds

end

theorem program_tooDeep {limit : Nat} {tokens : List Token} {ds : List Derivation}
    (h : DerivesAll limit 0 tokens ds) {ts : List Located}
    (htokens : ts.map Located.token = tokens) {first : Located}
    (hfirst : firstAt o.maxDepth ts (Derivation.levelsAll 0 ds) = some first) :
    program o openString ts = .error ⟨.nestingTooDeep o.maxDepth, first.span⟩ := by
  cases h with
  | nil => simp [firstAt, Derivation.levelsAll] at hfirst
  | @cons _ _ _ d ds hd hds =>
    obtain ⟨front, back, rfl, hfront, hback⟩ := List.map_eq_append_iff.mp htokens
    obtain ⟨token, tail, rfl⟩ := exists_cons_of_derives hd
    obtain ⟨t, front', rfl, -, -⟩ := List.map_eq_cons_iff.mp hfront
    rw [← hfront] at hd
    rw [Derivation.levelsAll,
      firstAt_append ((length_enclosers _).trans hd.length_levels)] at hfirst
    rw [List.cons_append, program.eq_def]
    cases hitem : firstAt o.maxDepth (t :: front') (d.levels 0) with
    | some place =>
      rw [hitem, Option.some_or] at hfirst
      simp only [expression_tooDeep hd (Nat.zero_le _) rfl (hitem.trans hfirst) back]
      rfl
    | none =>
      rw [hitem, Option.none_or] at hfirst
      obtain ⟨le, hread⟩ : ∃ le, expression o openString 0 t (front' ++ back) =
          .ok ⟨d.value o, back, le⟩ :=
        expression_complete (derives_of_firstAt hd (Nat.zero_le _) hitem) rfl back
      simp only [hread, program_tooDeep hds hback hfirst, bind, Except.bind]
termination_by sizeOf ds

/-! ## Results that the limit has no part in -/

theorem not_tooDeep_ok {α : Type} (a : α) : ¬ TooDeep (.ok a : Except ParseError α) := by
  intro h
  obtain ⟨limit, place, h⟩ := h
  contradiction

theorem bind_eq_of_not_tooDeep {α β : Type} {x y : Except ParseError α}
    {f g : α → Except ParseError β} (h : ¬ TooDeep (x >>= f)) (hx : ¬ TooDeep x → y = x)
    (hf : ∀ a, ¬ TooDeep (f a) → g a = f a) : y >>= g = x >>= f := by
  cases x with
  | error e =>
    have hdeep : ¬ TooDeep (.error e : Except ParseError α) := by
      intro hdeep
      obtain ⟨limit, place, he⟩ := hdeep
      cases he
      exact h ⟨limit, place, rfl⟩
    rw [hx hdeep]
    rfl
  | ok a =>
    rw [hx (not_tooDeep_ok a)]
    exact hf a h

mutual

theorem expression_limit {limit depth : Nat} (hlimit : o.maxDepth ≤ limit) {t : Located}
    {ts : List Located} (h : ¬ TooDeep (expression o openString depth t ts)) :
    expression { o with maxDepth := limit } openString depth t ts =
      expression o openString depth t ts := by
  rw [expression.eq_def] at h ⊢
  rw [expression.eq_def o]
  match ht : t.token with
  | .string _ | .atom _ _ | .closing _ => rfl
  | .opening kind =>
    simp only [ht] at h ⊢
    by_cases hdepth : o.maxDepth ≤ depth
    · rw [if_pos hdepth] at h
      exact absurd ⟨_, _, rfl⟩ h
    · rw [if_neg hdepth] at h
      rw [if_neg hdepth, if_neg fun hle => hdepth (Nat.le_trans hlimit hle)]
      exact bind_eq_of_not_tooDeep h (items_limit hlimit) fun _ _ => rfl
  | .apostrophe =>
    simp only [ht] at h ⊢
    cases ts with
    | nil => rfl
    | cons next ts' =>
      dsimp only at h ⊢
      split
      · rfl
      · rename_i hnext
        by_cases hdepth : o.maxDepth ≤ depth
        · simp only [if_pos hdepth] at h
          exact absurd ⟨_, _, rfl⟩ h
        · simp only [if_neg hdepth] at h
          rw [if_neg hdepth, if_neg fun hle => hdepth (Nat.le_trans hlimit hle)]
          exact bind_eq_of_not_tooDeep h (expression_limit hlimit) fun _ _ => rfl
termination_by 2 * ts.length + 1

theorem items_limit {limit depth : Nat} (hlimit : o.maxDepth ≤ limit) {kind : Bracket}
    {opened : Span} {ts : List Located}
    (h : ¬ TooDeep (items o openString depth kind opened ts)) :
    items { o with maxDepth := limit } openString depth kind opened ts =
      items o openString depth kind opened ts := by
  rw [items.eq_def] at h ⊢
  rw [items.eq_def o]
  cases ts with
  | nil => rfl
  | cons t ts' =>
    dsimp only at h ⊢
    split
    · rfl
    · rename_i ht
      rw [if_neg ht] at h
      refine bind_eq_of_not_tooDeep h (expression_limit hlimit) fun r hr => ?_
      have hle := r.le
      exact bind_eq_of_not_tooDeep hr (items_limit hlimit) fun _ _ => rfl
termination_by 2 * ts.length
decreasing_by all_goals subst_vars; simp only [List.length_cons]; omega

end

theorem program_limit {limit : Nat} (hlimit : o.maxDepth ≤ limit) {ts : List Located}
    (h : ¬ TooDeep (program o openString ts)) :
    program { o with maxDepth := limit } openString ts = program o openString ts := by
  rw [program.eq_def] at h ⊢
  rw [program.eq_def o]
  cases ts with
  | nil => rfl
  | cons t ts' =>
    exact bind_eq_of_not_tooDeep h (expression_limit hlimit) fun r hr =>
      bind_eq_of_not_tooDeep hr (program_limit hlimit) fun _ _ => rfl
termination_by ts.length
decreasing_by subst_vars; exact Nat.lt_succ_of_le r.le

end Reader

/-- A level below the nesting is the level of an opener or apostrophe. -/
theorem exists_firstAt {limit level : Nat} {ts : List Located} {ds : List Derivation}
    (h : DerivesAll limit 0 (ts.map Located.token) ds) (hlevel : level < Derivation.nesting ds) :
    ∃ first, firstAt level ts (Derivation.levelsAll 0 ds) = some first := by
  refine Option.ne_none_iff_exists'.mp fun hnone => Nat.not_le_of_lt hlevel ?_
  have hnot := (firstAt_eq_none_iff ((length_enclosers ts).trans h.length_levels)).mp hnone
  refine Derivation.nesting_le_iff.mpr fun n hn => Nat.lt_of_not_le fun hle => ?_
  exact hnot (Derivation.mem_levelsAll_of_le hn (Nat.zero_le level) hle)

/-- A result for which the limit was not met is the result at every higher limit. A text
that is read at some limit is read at every limit from its nesting on; at a lower one, the
first opener or apostrophe inside as many brackets and apostrophes as the limit allows is
one too many. -/
theorem parse_limit (t : BracketTable) (o : ParseOptions) (source : String) :
    (∀ d d', d ≤ d' → ¬ TooDeep (parse t { o with maxDepth := d } source) →
      parse t { o with maxDepth := d' } source = parse t { o with maxDepth := d } source) ∧
    ∀ limit values, parse t { o with maxDepth := limit } source = .ok values →
      ∃ ts ds, ts = (tokenize (o.readtable t) source).tokens ∧
        DerivesAll limit 0 (ts.map Located.token) ds ∧ Derivation.values o ds = values ∧
        (enclosers ts).length = (Derivation.levelsAll 0 ds).length ∧
        (∀ d, Derivation.nesting ds ≤ d → parse t { o with maxDepth := d } source = .ok values) ∧
        ∀ d < Derivation.nesting ds, ∃ first,
          firstAt d ts (Derivation.levelsAll 0 ds) = some first ∧
          parse t { o with maxDepth := d } source = .error ⟨.nestingTooDeep d, first.span⟩ := by
  refine ⟨fun d d' hle h => @Reader.program_limit { o with maxDepth := d } _ d' hle _ h, ?_⟩
  intro limit values h
  obtain ⟨_, ds, ⟨rfl, hopen⟩, hds, rfl⟩ := parse_sound h
  refine ⟨_, ds, rfl, hds, (Derivation.values_limit o limit ds).symm,
    (length_enclosers _).trans hds.length_levels, ?_, ?_⟩
  · intro d hd
    have hds' := hds.relimit (Derivation.nesting_le_iff.mp hd)
    rw [Derivation.values_limit, ← Derivation.values_limit o d]
    exact parse_complete (o := { o with maxDepth := d }) ⟨rfl, hopen⟩ hds'
  · intro d hd
    obtain ⟨first, hfirst⟩ := exists_firstAt hds hd
    exact ⟨first, hfirst, Reader.program_tooDeep hds rfl hfirst⟩

/-- The second of two siblings holds the third apostrophe or bracket in each other, and
what is behind it starts again at the bottom. -/
theorem parse_limit_siblings :
    parse .default { maxDepth := 2 } "((a) ['b]) ''c" =
      .error ⟨.nestingTooDeep 2, ⟨⟨6, 6⟩, ⟨7, 7⟩⟩⟩ ∧
    ∃ values, parse .default { maxDepth := 3 } "((a) ['b]) ''c" = .ok values ∧
      (∃ ds, Derivation.values {} ds = values ∧ Derivation.nesting ds = 3) ∧
      parse .default { maxDepth := 1024 } "((a) ['b]) ''c" = .ok values := by
  have htokens : tokenize ⟨.default, ';'⟩ "((a) ['b]) ''c" =
      ⟨[⟨.opening .parens, ⟨⟨0, 0⟩, ⟨1, 1⟩⟩⟩, ⟨.opening .parens, ⟨⟨1, 1⟩, ⟨2, 2⟩⟩⟩,
        ⟨.atom "a" false, ⟨⟨2, 2⟩, ⟨3, 3⟩⟩⟩, ⟨.closing .parens, ⟨⟨3, 3⟩, ⟨4, 4⟩⟩⟩,
        ⟨.opening .square, ⟨⟨5, 5⟩, ⟨6, 6⟩⟩⟩, ⟨.apostrophe, ⟨⟨6, 6⟩, ⟨7, 7⟩⟩⟩,
        ⟨.atom "b" false, ⟨⟨7, 7⟩, ⟨8, 8⟩⟩⟩, ⟨.closing .square, ⟨⟨8, 8⟩, ⟨9, 9⟩⟩⟩,
        ⟨.closing .parens, ⟨⟨9, 9⟩, ⟨10, 10⟩⟩⟩, ⟨.apostrophe, ⟨⟨11, 11⟩, ⟨12, 12⟩⟩⟩,
        ⟨.apostrophe, ⟨⟨12, 12⟩, ⟨13, 13⟩⟩⟩, ⟨.atom "c" false, ⟨⟨13, 13⟩, ⟨14, 14⟩⟩⟩], none⟩ := by
    decide +kernel
  have hbelow : parse .default { maxDepth := 2 } "((a) ['b]) ''c" =
      .error ⟨.nestingTooDeep 2, ⟨⟨6, 6⟩, ⟨7, 7⟩⟩⟩ := by
    rw [parse, ParseOptions.readtable, htokens, Reader.program_eq_run]
    rfl
  have hparse : parse .default { maxDepth := 3 } "((a) ['b]) ''c" =
      .ok [.sequence .parens [.sequence .parens [.symbol "a"],
        .sequence .square [.quoted (.symbol "b")]], .quoted (.quoted (.symbol "c"))] := by
    rw [parse, ParseOptions.readtable, htokens, Reader.program_eq_run]
    rfl
  obtain ⟨hmono, hexact⟩ := parse_limit .default {} "((a) ['b]) ''c"
  obtain ⟨ts, ds, -, -, hvalues, -, habove, hunder⟩ := hexact 3 _ hparse
  have hle : Derivation.nesting ds ≤ 3 := by
    refine Nat.le_of_not_lt fun hlt => ?_
    obtain ⟨first, -, hfail⟩ := hunder 3 hlt
    cases hparse.symm.trans hfail
  have hlt : 2 < Derivation.nesting ds := by
    refine Nat.lt_of_not_le fun hle => ?_
    cases hbelow.symm.trans (habove 2 hle)
  have hfree : ¬ TooDeep (parse .default { maxDepth := 3 } "((a) ['b]) ''c") :=
    hparse ▸ Reader.not_tooDeep_ok _
  refine ⟨hbelow, _, hparse, ⟨ds, hvalues, Nat.le_antisymm hle hlt⟩, ?_⟩
  exact (hmono 3 1024 (by decide) hfree).trans hparse

end SExpr
