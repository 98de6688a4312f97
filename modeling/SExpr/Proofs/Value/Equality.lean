import SExpr.Value.Distinct

/-! # Equality and hashing of values

Equal values have the same form and equal parts, down to floats that are the same
number. So equality is an equivalence that hashing respects, and a hash map finds the
position that comparing finds. -/

namespace SExpr

/-! ## Floats as numbers -/

namespace Binary64

/-- Both are NaN, both are zero, or they are one number, bit for bit. -/
def Same (x y : Binary64) : Prop :=
  x.isNaN = true ∧ y.isNaN = true ∨ x.magnitude = 0 ∧ y.magnitude = 0 ∨ x = y

theorem magnitude_ne_zero_of_isNaN {x : Binary64} (h : x.isNaN = true) : x.magnitude ≠ 0 := by
  have hlt : infinite < x.magnitude := of_decide_eq_true h
  omega

theorem canonical_of_isNaN {x : Binary64} (h : x.isNaN = true) :
    x.canonical = ofMagnitude false (infinite + 2 ^ 51) := if_pos h

theorem canonical_of_magnitude_eq_zero {x : Binary64} (h : x.magnitude = 0) :
    x.canonical = ofMagnitude false 0 := by
  have hnan : ¬ x.isNaN = true := fun hnan => magnitude_ne_zero_of_isNaN hnan h
  rw [canonical, if_neg hnan, if_pos h]

theorem isNaN_canonical (x : Binary64) : x.canonical.isNaN = x.isNaN := by
  unfold canonical
  split
  · rename_i h
    rw [h]
    rfl
  split
  · rename_i hnan _
    rw [Bool.eq_false_iff.mpr hnan]
    rfl
  · rfl

theorem magnitude_canonical_eq_zero_iff (x : Binary64) :
    x.canonical.magnitude = 0 ↔ x.magnitude = 0 := by
  unfold canonical
  split
  · rename_i h
    have hcanonical : (ofMagnitude false (infinite + 2 ^ 51)).magnitude ≠ 0 := by decide
    exact iff_of_false hcanonical (magnitude_ne_zero_of_isNaN h)
  split
  · rename_i h
    exact iff_of_true rfl h
  · exact Iff.rfl

theorem canonical_of_neither {x : Binary64} (hnan : ¬ x.isNaN = true) (hzero : x.magnitude ≠ 0) :
    x.canonical = x := by
  rw [canonical, if_neg hnan, if_neg hzero]

theorem sameNumber_eq_true_iff {x y : Binary64} : x.sameNumber y = true ↔ x.Same y := by
  rw [sameNumber_iff]
  constructor
  · intro h
    by_cases hnan : x.isNaN = true
    · exact .inl ⟨hnan, by rw [← isNaN_canonical, ← h, isNaN_canonical, hnan]⟩
    by_cases hzero : x.magnitude = 0
    · refine .inr (.inl ⟨hzero, ?_⟩)
      rwa [← magnitude_canonical_eq_zero_iff, ← h, magnitude_canonical_eq_zero_iff]
    · have hy : y.canonical = y := by
        apply canonical_of_neither
        · rwa [← isNaN_canonical, ← h, isNaN_canonical]
        · rwa [Ne, ← magnitude_canonical_eq_zero_iff, ← h, magnitude_canonical_eq_zero_iff]
      rw [canonical_of_neither hnan hzero, hy] at h
      exact .inr (.inr h)
  · rintro (⟨hx, hy⟩ | ⟨hx, hy⟩ | rfl)
    · rw [canonical_of_isNaN hx, canonical_of_isNaN hy]
    · rw [canonical_of_magnitude_eq_zero hx, canonical_of_magnitude_eq_zero hy]
    · rfl

theorem same_iff {x y : Binary64} : x.Same y ↔ x.canonical = y.canonical :=
  sameNumber_eq_true_iff.symm.trans sameNumber_iff

theorem Same.refl (x : Binary64) : x.Same x := .inr (.inr rfl)

theorem Same.symm {x y : Binary64} (h : x.Same y) : y.Same x :=
  same_iff.mpr (same_iff.mp h).symm

theorem Same.trans {x y z : Binary64} (h : x.Same y) (h' : y.Same z) : x.Same z :=
  same_iff.mpr ((same_iff.mp h).trans (same_iff.mp h'))

end Binary64

/-! ## Values -/

namespace Value

mutual

/-- The values have one form, and their parts are equal in turn. -/
inductive Equal : Value → Value → Prop
  | symbol {name : String} : Equal (.symbol name) (.symbol name)
  | literal {content : String} : Equal (.literal content) (.literal content)
  | text {content : String} : Equal (.text content) (.text content)
  | int {n : Int64} : Equal (.int n) (.int n)
  | float {x y : Binary64} : x.Same y → Equal (.float x) (.float y)
  | bool {b : Bool} : Equal (.bool b) (.bool b)
  | nil : Equal .nil .nil
  | quoted {a b : Value} : Equal a b → Equal (.quoted a) (.quoted b)
  | sequence {kind : Bracket} {as bs : List Value} : EqualAll as bs →
      Equal (.sequence kind as) (.sequence kind bs)
  | tuple {as bs : List Value} : EqualAll as bs → Equal (.tuple as) (.tuple bs)

inductive EqualAll : List Value → List Value → Prop
  | nil : EqualAll [] []
  | cons {a b : Value} {as bs : List Value} : Equal a b → EqualAll as bs →
      EqualAll (a :: as) (b :: bs)

end

mutual

theorem equal_of_beq {a b : Value} (h : a.beq b = true) : Equal a b := by
  match a with
  | .symbol name | .literal name | .text name | .int name | .bool name =>
    cases b <;> simp [beq] at h
    subst h
    constructor
  | .float x =>
    cases b <;> simp [beq] at h
    exact .float (Binary64.sameNumber_eq_true_iff.mp h)
  | .nil =>
    cases b <;> simp [beq] at h
    exact .nil
  | .quoted inner =>
    cases b <;> simp [beq] at h
    exact .quoted (equal_of_beq h)
  | .sequence kind items =>
    cases b <;> simp [beq] at h
    obtain ⟨rfl, hitems⟩ := h
    exact .sequence (equalAll_of_beqList hitems)
  | .tuple items =>
    cases b <;> simp [beq] at h
    exact .tuple (equalAll_of_beqList h)

theorem equalAll_of_beqList {as bs : List Value} (h : beqList as bs = true) : EqualAll as bs := by
  match as, bs with
  | [], [] => exact .nil
  | a :: as, b :: bs =>
    obtain ⟨hitem, hrest⟩ := Bool.and_eq_true_iff.mp h
    exact .cons (equal_of_beq hitem) (equalAll_of_beqList hrest)
  | [], _ :: _ | _ :: _, [] => contradiction

end

mutual

theorem Equal.beq {a b : Value} (h : Equal a b) : a.beq b = true := by
  match h with
  | .symbol | .literal | .text | .int | .bool | .nil => simp [Value.beq]
  | .float hx => exact Binary64.sameNumber_eq_true_iff.mpr hx
  | .quoted hinner => exact hinner.beq
  | .sequence hitems => simp [Value.beq, hitems.beqList]
  | .tuple hitems => exact hitems.beqList

theorem EqualAll.beqList {as bs : List Value} (h : EqualAll as bs) : beqList as bs = true := by
  match h with
  | .nil => rfl
  | .cons hitem hrest => exact Bool.and_eq_true_iff.mpr ⟨hitem.beq, hrest.beqList⟩

end

theorem beq_iff_equal {a b : Value} : (a == b) = true ↔ Equal a b :=
  ⟨equal_of_beq, Equal.beq⟩

/-! ## An equivalence -/

mutual

theorem Equal.refl (v : Value) : Equal v v := by
  match v with
  | .symbol _ => exact .symbol
  | .literal _ => exact .literal
  | .text _ => exact .text
  | .int _ => exact .int
  | .float x => exact .float (.refl x)
  | .bool _ => exact .bool
  | .nil => exact .nil
  | .quoted inner => exact .quoted (Equal.refl inner)
  | .sequence _ items => exact .sequence (EqualAll.refl items)
  | .tuple items => exact .tuple (EqualAll.refl items)

theorem EqualAll.refl (items : List Value) : EqualAll items items := by
  match items with
  | [] => exact .nil
  | v :: rest => exact .cons (Equal.refl v) (EqualAll.refl rest)

end

mutual

theorem Equal.symm {a b : Value} (h : Equal a b) : Equal b a := by
  match h with
  | .symbol => exact .symbol
  | .literal => exact .literal
  | .text => exact .text
  | .int => exact .int
  | .float hx => exact .float hx.symm
  | .bool => exact .bool
  | .nil => exact .nil
  | .quoted hinner => exact .quoted hinner.symm
  | .sequence hitems => exact .sequence hitems.symm
  | .tuple hitems => exact .tuple hitems.symm

theorem EqualAll.symm {as bs : List Value} (h : EqualAll as bs) : EqualAll bs as := by
  match h with
  | .nil => exact .nil
  | .cons hitem hrest => exact .cons hitem.symm hrest.symm

end

mutual

theorem Equal.trans {a b c : Value} (h : Equal a b) (h' : Equal b c) : Equal a c := by
  match h, h' with
  | .symbol, .symbol => exact .symbol
  | .literal, .literal => exact .literal
  | .text, .text => exact .text
  | .int, .int => exact .int
  | .float hx, .float hy => exact .float (hx.trans hy)
  | .bool, .bool => exact .bool
  | .nil, .nil => exact .nil
  | .quoted hinner, .quoted hinner' => exact .quoted (hinner.trans hinner')
  | .sequence hitems, .sequence hitems' => exact .sequence (hitems.trans hitems')
  | .tuple hitems, .tuple hitems' => exact .tuple (hitems.trans hitems')

theorem EqualAll.trans {as bs cs : List Value} (h : EqualAll as bs) (h' : EqualAll bs cs) :
    EqualAll as cs := by
  match h, h' with
  | .nil, .nil => exact .nil
  | .cons hitem hrest, .cons hitem' hrest' =>
    exact .cons (hitem.trans hitem') (hrest.trans hrest')

end

instance : EquivBEq Value where
  rfl := beq_iff_equal.mpr (.refl _)
  symm h := beq_iff_equal.mpr (beq_iff_equal.mp h).symm
  trans h h' := beq_iff_equal.mpr ((beq_iff_equal.mp h).trans (beq_iff_equal.mp h'))

/-! ## Forms -/

/-- What kind of value it is, whatever it holds. A plain list is a sequence in
parentheses, and sequences in other brackets are of other forms. -/
inductive Form
  | symbol
  | literal
  | text
  | int
  | float
  | bool
  | nil
  | quoted
  | sequence (kind : Bracket)
  | tuple
deriving DecidableEq

def form : Value → Form
  | .symbol _ => .symbol
  | .literal _ => .literal
  | .text _ => .text
  | .int _ => .int
  | .float _ => .float
  | .bool _ => .bool
  | .nil => .nil
  | .quoted _ => .quoted
  | .sequence kind _ => .sequence kind
  | .tuple _ => .tuple

theorem Equal.form_eq {a b : Value} (h : Equal a b) : a.form = b.form := by
  cases h <;> rfl

/-! ## Hashes -/

mutual

theorem Equal.hashCode_eq {a b : Value} (h : Equal a b) : a.hashCode = b.hashCode := by
  match h with
  | .symbol | .literal | .text | .int | .bool | .nil => rfl
  | .float hx =>
    have hbits := congrArg (fun x => hash x.bits) (Binary64.same_iff.mp hx)
    exact congrArg (mixHash 5) hbits
  | .quoted hinner => rw [hashCode, hashCode, hinner.hashCode_eq]
  | .sequence hitems => rw [hashCode, hashCode, hitems.hashCodeList_eq]
  | .tuple hitems => rw [hashCode, hashCode, hitems.hashCodeList_eq]

theorem EqualAll.hashCodeList_eq {as bs : List Value} (h : EqualAll as bs) :
    hashCodeList as = hashCodeList bs := by
  match h with
  | .nil => rfl
  | .cons hitem hrest =>
    rw [hashCodeList, hashCodeList, hitem.hashCode_eq, hrest.hashCodeList_eq]

end

instance : LawfulHashable Value where
  hash_eq _ _ h := (beq_iff_equal.mp h).hashCode_eq

/-! ## First positions -/

/-- Equal values are met at the same place. -/
theorem findIdx?_congr {u v : Value} (h : (u == v) = true) (values : List Value) :
    values.findIdx? (· == u) = values.findIdx? (· == v) := by
  have hpred : (fun x : Value => x == u) = fun x => x == v := funext fun _ => BEq.congr_right h
  rw [hpred]

/-- The map has all values that were met, each with its first position. -/
def Seen (seen : Std.HashMap Value Nat) (met : List Value) : Prop :=
  ∀ v : Value, seen[v]? = met.findIdx? (· == v)

variable {seen : Std.HashMap Value Nat} {met : List Value} {v : Value}

theorem Seen.again (h : Seen seen met) {first : Nat} (hv : seen[v]? = some first) :
    Seen seen (met ++ [v]) := by
  intro u
  rw [h u, List.findIdx?_append]
  by_cases hvu : (v == u) = true
  · rw [← findIdx?_congr hvu met, ← h v, hv]
    rfl
  · simp [List.findIdx?_cons, hvu]

theorem Seen.insert (h : Seen seen met) (hv : seen[v]? = none) :
    Seen (seen.insert v met.length) (met ++ [v]) := by
  intro u
  rw [Std.HashMap.getElem?_insert, List.findIdx?_append]
  by_cases hvu : (v == u) = true
  · rw [if_pos hvu, ← findIdx?_congr hvu met, ← h v, hv]
    simp [List.findIdx?_cons, hvu]
  · rw [if_neg hvu, h u]
    simp [List.findIdx?_cons, hvu]

/-- Whatever was met before, the positions found are those in all values. -/
theorem firstEqualFrom_eq (h : Seen seen met) (rest : List Value) :
    firstEqualFrom seen met.length rest =
      rest.map fun v => (met ++ rest).findIdx (· == v) := by
  induction rest generalizing seen met with
  | nil => rfl
  | cons v rest ih =>
    -- either way the walk goes on behind `v`, with a map of one more value met
    have hnext : ∀ {seen'}, Seen seen' (met ++ [v]) →
        firstEqualFrom seen' (met.length + 1) rest =
          rest.map fun u => (met ++ v :: rest).findIdx (· == u) := by
      intro seen' hseen'
      simpa using ih hseen'
    cases hv : seen[v]? with
    | some first =>
      have hfirst : (met ++ v :: rest).findIdx (· == v) = first := by
        have hmet := h v ▸ hv
        obtain ⟨hlt, heq⟩ := List.findIdx?_eq_some_iff_findIdx_eq.mp hmet
        rw [List.findIdx_append, heq, if_pos hlt]
      simp only [firstEqualFrom, hv]
      rw [hnext (h.again hv), List.map_cons, hfirst]
    | none =>
      have hfirst : (met ++ v :: rest).findIdx (· == v) = met.length := by
        have hmet := h v ▸ hv
        have hlength := List.findIdx_eq_length.mpr (List.findIdx?_eq_none_iff.mp hmet)
        rw [List.findIdx_append, hlength]
        simp [List.findIdx_cons]
      simp only [firstEqualFrom, hv]
      rw [hnext (h.insert hv), List.map_cons, hfirst]

theorem firstEqualHashed_eq (values : List Value) :
    firstEqualHashed values = firstEqual values := by
  have hempty : Seen ∅ [] := fun v => by simp
  exact firstEqualFrom_eq hempty values

end Value
end SExpr
