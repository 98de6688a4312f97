import SExpr.Proofs.Print.Layout
import SExpr.Proofs.Value.Equality
import SExpr.Proofs.Value.Parts

/-! # Equal values are printed alike

They fail with the same error, or they are written as the same text but for the signs
of zeros. A NaN is refused as such, whatever its bits, and no other two numbers are
equal without being the same. -/

namespace SExpr

open Binary64 Digits

/-! ## Results that agree -/

/-- The same error, as it is reported: of a NaN it is not told which one it is. -/
structure PrintError.Same (e f : PrintError) : Prop where
  eq_or_nan : e = f ∨
    ∃ x y, x.isNaN = true ∧ y.isNaN = true ∧ e = .nonFinite x ∧ f = .nonFinite y
  message_eq : e.message = f.message

theorem PrintError.Same.refl (e : PrintError) : e.Same e := by
  constructor
  · left
    rfl
  · rfl

theorem PrintError.Same.nan {x y : Binary64} (hx : x.isNaN = true) (hy : y.isNaN = true) :
    (PrintError.nonFinite x).Same (.nonFinite y) := by
  have hname : x.name = y.name := by rw [Binary64.name, Binary64.name, if_pos hx, if_pos hy]
  constructor
  · right
    exact ⟨x, y, hx, hy, rfl, rfl⟩
  · exact congrArg ("can not print the non-finite float " ++ ·) hname

/-- Both fail with the same error, or both succeed with related results. -/
inductive Agree {α : Type} (related : α → α → Prop) :
    Except PrintError α → Except PrintError α → Prop
  | ok {a b : α} : related a b → Agree related (.ok a) (.ok b)
  | error {e f : PrintError} : e.Same f → Agree related (.error e) (.error f)

section
variable {α β : Type} {related : α → α → Prop} {related' : β → β → Prop}

theorem Agree.refl (h : ∀ a, related a a) (r : Except PrintError α) : Agree related r r := by
  cases r with
  | ok a => exact .ok (h a)
  | error e => exact .error (.refl e)

theorem Agree.bind {r s : Except PrintError α} {f g : α → Except PrintError β}
    (h : Agree related r s) (hnext : ∀ a b, related a b → Agree related' (f a) (g b)) :
    Agree related' (r >>= f) (s >>= g) := by
  cases h with
  | ok hab => exact hnext _ _ hab
  | error hef => exact .error hef

theorem Agree.map {r s : Except PrintError α} {f g : α → β} (h : Agree related r s)
    (hnext : ∀ a b, related a b → related' (f a) (g b)) : Agree related' (r.map f) (s.map g) := by
  cases h with
  | ok hab => exact .ok (hnext _ _ hab)
  | error hef => exact .error hef

end

/-! ## Texts that differ in the signs of zeros -/

/-- How a zero is written. -/
def Binary64.zeroText (x : Binary64) : List Char := signed x.isNegative ['0', '.', '0']

/-- One text with the zeros `xs` put into it in turn, and the same text with the zeros
`ys` in their places. -/
inductive ZerosApart : List Binary64 → List Binary64 → List Char → List Char → Prop
  | nil : ZerosApart [] [] [] []
  | char {xs ys : List Binary64} {text others : List Char} (c : Char) :
      ZerosApart xs ys text others → ZerosApart xs ys (c :: text) (c :: others)
  | zero {xs ys : List Binary64} {text others : List Char} (x y : Binary64) :
      ZerosApart xs ys text others →
      ZerosApart (x :: xs) (y :: ys) (x.zeroText ++ text) (y.zeroText ++ others)

theorem ZerosApart.refl (text : List Char) : ZerosApart [] [] text text := by
  induction text with
  | nil => exact .nil
  | cons c rest ih => exact ih.char c

theorem ZerosApart.append {xs ys xs' ys' : List Binary64} {text others text' others' : List Char}
    (h : ZerosApart xs ys text others) (h' : ZerosApart xs' ys' text' others') :
    ZerosApart (xs ++ xs') (ys ++ ys') (text ++ text') (others ++ others') := by
  induction h with
  | nil => exact h'
  | char c _ ih => exact ih.char c
  | zero x y _ ih =>
    rw [List.append_assoc, List.append_assoc]
    exact ih.zero x y

theorem ZerosApart.eq_of_eq {xs ys : List Binary64} {text others : List Char}
    (h : ZerosApart xs ys text others) (hzeros : xs = ys) : text = others := by
  induction h with
  | nil => rfl
  | char c _ ih => rw [ih hzeros]
  | zero x y _ ih =>
    obtain ⟨rfl, hrest⟩ := List.cons_eq_cons.mp hzeros
    rw [ih hrest]

theorem Binary64.text_of_magnitude_eq_zero {x : Binary64} (h : x.magnitude = 0) :
    x.text = x.zeroText := by
  rw [text_eq, if_pos h, zeroText]

theorem Writer.float_of_magnitude_eq_zero {x : Binary64} (h : x.magnitude = 0) :
    float x = .ok (.atom (.ofList x.zeroText)) := by
  have hfinite : x.isFinite = true := by
    rw [Binary64.isFinite, h]
    rfl
  rw [float, if_pos hfinite, Binary64.text_of_magnitude_eq_zero h]

theorem Writer.float_of_isNaN {x : Binary64} (h : x.isNaN = true) :
    float x = .error (.nonFinite x) := by
  have hlt : Binary64.infinite < x.magnitude := of_decide_eq_true h
  have hfinite : ¬ x.isFinite = true := fun hfinite => Nat.lt_asymm hlt (of_decide_eq_true hfinite)
  rw [float, if_neg hfinite]

namespace Value

/-- The number, if it is a zero. -/
def zero? : Value → Option Binary64
  | .float x => if x.magnitude = 0 then some x else none
  | _ => none

/-- The zeros in a value in the order in which they are printed. -/
def zeros (v : Value) : List Binary64 := v.parts.filterMap zero?

def zerosAll (items : List Value) : List Binary64 := (partsAll items).filterMap zero?

theorem zeros_float_of_zero {x : Binary64} (h : x.magnitude = 0) : (float x).zeros = [x] := by
  simp [zeros, parts, zero?, h]

theorem zeros_float_of_ne_zero {x : Binary64} (h : x.magnitude ≠ 0) : (float x).zeros = [] := by
  simp [zeros, parts, zero?, h]

theorem zerosAll_cons (v : Value) (rest : List Value) :
    zerosAll (v :: rest) = v.zeros ++ zerosAll rest := by
  rw [zerosAll, partsAll, List.filterMap_append]
  rfl

end Value

/-! ## Layouts -/

namespace Layout

/-- The compact texts of two layouts differ in zeros. -/
def Apart (xs ys : List Binary64) (l m : Layout) : Prop :=
  ZerosApart xs ys l.compact.toList m.compact.toList

/-- Item by item. -/
inductive AllApart : List Binary64 → List Binary64 → List Layout → List Layout → Prop
  | nil : AllApart [] [] [] []
  | cons {xs ys xs' ys' : List Binary64} {l m : Layout} {ls ms : List Layout} :
      Apart xs ys l m → AllApart xs' ys' ls ms →
      AllApart (xs ++ xs') (ys ++ ys') (l :: ls) (m :: ms)

theorem Apart.refl (l : Layout) : Apart [] [] l l := ZerosApart.refl _

theorem Apart.zero (x y : Binary64) :
    Apart [x] [y] (.atom (.ofList x.zeroText)) (.atom (.ofList y.zeroText)) := by
  simpa [Apart, compact] using ZerosApart.nil.zero x y

theorem Apart.quoted {xs ys : List Binary64} {l m : Layout} (h : Apart xs ys l m) :
    Apart xs ys (.quoted l) (.quoted m) := by
  unfold Apart
  rw [compact, compact, String.toList_append, String.toList_append]
  exact ZerosApart.char '\'' h

theorem AllApart.intercalate {xs ys : List Binary64} {ls ms : List Layout}
    (h : AllApart xs ys ls ms) : ZerosApart xs ys
      (" ".intercalate (compactItems ls)).toList (" ".intercalate (compactItems ms)).toList := by
  induction h with
  | nil => exact .nil
  | cons hitem hrest ih =>
    cases hrest with
    | nil => simpa [compactItems, Apart] using hitem
    | cons hnext hmore =>
      simp only [compactItems, String.intercalate_cons_cons, String.toList_append] at ih ⊢
      rw [List.append_assoc, List.append_assoc]
      exact hitem.append (ih.char ' ')

theorem AllApart.sequence {xs ys : List Binary64} {ls ms : List Layout}
    (h : AllApart xs ys ls ms) (kind : Bracket) :
    Apart xs ys (.sequence kind ls) (.sequence kind ms) := by
  have hinside := h.intercalate.append (.refl [kind.closer])
  rw [List.append_nil, List.append_nil] at hinside
  unfold Apart
  simpa [compact] using hinside.char kind.opener

end Layout

namespace Value

variable {w : Writer}

theorem layout_agree_float {x y : Binary64} (h : x.Same y) :
    Agree (Layout.Apart (Value.float x).zeros (Value.float y).zeros)
      (Writer.float x) (Writer.float y) := by
  obtain ⟨hx, hy⟩ | ⟨hx, hy⟩ | rfl := h
  · rw [Writer.float_of_isNaN hx, Writer.float_of_isNaN hy]
    exact .error (.nan hx hy)
  · rw [Writer.float_of_magnitude_eq_zero hx, Writer.float_of_magnitude_eq_zero hy,
      zeros_float_of_zero hx, zeros_float_of_zero hy]
    exact .ok (.zero x y)
  -- one number, which still counts among the zeros if it is one
  · by_cases hx : x.magnitude = 0
    · rw [Writer.float_of_magnitude_eq_zero hx, zeros_float_of_zero hx]
      exact .ok (.zero x x)
    · rw [zeros_float_of_ne_zero hx]
      exact .refl Layout.Apart.refl _

mutual

theorem Equal.layout_agree {a b : Value} (h : Equal a b) :
    Agree (Layout.Apart a.zeros b.zeros) (a.layout w) (b.layout w) := by
  match h with
  | .symbol | .literal | .text | .int | .bool | .nil => exact .refl Layout.Apart.refl _
  | .float hx => exact layout_agree_float hx
  | .quoted hinner => exact hinner.layout_agree.bind fun _ _ hl => .ok hl.quoted
  | .sequence hitems =>
    rename_i kind as bs
    -- the brackets are the same, so they are refused in both or in neither
    have hknown : Agree Eq (w.known kind) (w.known kind) := .refl (fun _ => rfl) _
    exact hknown.bind fun _ _ _ => hitems.layouts_agree.bind fun _ _ hls => .ok (hls.sequence kind)
  | .tuple hitems => exact hitems.layouts_agree.bind fun _ _ hls => .ok (hls.sequence w.tupleKind)

theorem EqualAll.layouts_agree {as bs : List Value} (h : EqualAll as bs) :
    Agree (Layout.AllApart (zerosAll as) (zerosAll bs)) (layouts w as) (layouts w bs) := by
  match h with
  | .nil => exact .ok .nil
  | .cons hitem hrest =>
    rw [zerosAll_cons, zerosAll_cons]
    exact hitem.layout_agree.bind fun _ _ hl =>
      hrest.layouts_agree.bind fun _ _ hls => .ok (.cons hl hls)

end

/-- What equal values have in common: their form, their hash, and what is printed of
them, but for how their zeros are written. -/
structure Alike (a b : Value) : Prop where
  form_eq : a.form = b.form
  hash_eq : hash a = hash b
  printed : ∀ w : Writer,
    Agree (fun text other => ZerosApart a.zeros b.zeros text.toList other.toList)
      (w.printCompact a) (w.printCompact b)

theorem Equal.alike {a b : Value} (h : Equal a b) : a.Alike b where
  form_eq := h.form_eq
  hash_eq := h.hashCode_eq
  printed w := by
    rw [Writer.printCompact_eq, Writer.printCompact_eq]
    exact h.layout_agree.map fun _ _ hl => hl

/-- Where the zeros have the same signs, so that they are the same, the texts are. -/
theorem Alike.text_eq {a b : Value} (h : a.Alike b) (hzeros : a.zeros = b.zeros)
    {text other : String} (ha : w.printCompact a = .ok text) (hb : w.printCompact b = .ok other) :
    text = other := by
  have hprinted := h.printed w
  rw [ha, hb] at hprinted
  cases hprinted with
  | ok hapart => exact String.toList_inj.mp (hapart.eq_of_eq hzeros)

end Value

/-! ## Coherence -/

/-- Equality is the equivalence that compares parts in turn and floats as numbers.
Equal values are alike, and a hash map finds the positions that comparing finds. -/
theorem equality_coherent :
    Equivalence (fun a b : Value => (a == b) = true) ∧
    (∀ a b : Value, (a == b) = true ↔ a.Equal b) ∧
    (∀ a b : Value, (a == b) = true → a.Alike b) ∧
    ∀ values : List Value, Value.firstEqualHashed values = Value.firstEqual values := by
  refine ⟨⟨?refl, ?symm, ?trans⟩, ?equal, ?alike, Value.firstEqualHashed_eq⟩
  case refl => exact fun _ => BEq.rfl
  case symm => exact BEq.symm
  case trans => exact BEq.trans
  case equal => exact fun _ _ => Value.beq_iff_equal
  case alike => exact fun _ _ h => (Value.beq_iff_equal.mp h).alike

/-- Zeros with both signs inside a quoted list, two NaNs in a tuple, and a zero that is
found at the place of the other zero but not of the integer. -/
theorem equality_coherent_zeros :
    let a := Value.quoted (.list [.float (ofMagnitude true 0), .symbol "x"])
    let b := Value.quoted (.list [.float (ofMagnitude false 0), .symbol "x"])
    let c := Value.tuple [.float (ofMagnitude true (infinite + 1))]
    let d := Value.tuple [.float (ofMagnitude false (infinite + 2))]
    (a == b) = true ∧ a.Alike b ∧
    Writer.printCompact {} a = .ok "'(-0.0 x)" ∧ Writer.printCompact {} b = .ok "'(0.0 x)" ∧
    (c == d) = true ∧ c.Alike d ∧
    Value.firstEqualHashed [.float (ofMagnitude true 0), .int 0, .float (ofMagnitude false 0)]
      = [0, 1, 0] := by
  intro a b c d
  obtain ⟨-, -, halike, hhashed⟩ := equality_coherent
  have hab : (a == b) = true := by decide
  have hcd : (c == d) = true := by decide
  refine ⟨hab, halike a b hab, rfl, rfl, hcd, halike c d hcd, ?_⟩
  rw [hhashed]
  decide

end SExpr
