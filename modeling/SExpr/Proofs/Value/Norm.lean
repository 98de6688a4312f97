import SExpr.Proofs.Binary64.Text
import SExpr.Proofs.Bracket.Reachable
import SExpr.Proofs.Print.Fault
import SExpr.Proofs.Print.Layout

/-! # What a value is expected to be read back as

Some values share their spelling: a reader can not tell a literal from text or a
tuple from a sequence, and it is told nothing of `nil` and truth values. `norm` is
the value that stands for all that are spelled alike. A value whose parts all have
a spelling of their own is `Readable`, and it is its own `norm`. -/

namespace SExpr.Value

mutual

/-- The value that the text of a value is meant to be read as. -/
def norm (o : PrintOptions) : Value → Value
  | .symbol name => .symbol name
  | .literal content => .text content
  | .text content =>
    match o.textStyle with
    | .string => .text content
    | .symbol => .symbol content
  | .int n => .int n
  | .float x => .float x
  | .bool true => .symbol "t"
  | .bool false => .list []
  | .nil => .symbol "nil"
  | .quoted inner => .quoted (inner.norm o)
  | .sequence kind items => .sequence kind (normAll o items)
  | .tuple items => .sequence o.tupleStyle.kind (normAll o items)

def normAll (o : PrintOptions) : List Value → List Value
  | [] => []
  | v :: rest => v.norm o :: normAll o rest

end

mutual

/-- How many brackets and apostrophes enclose each other at most. -/
def nesting : Value → Nat
  | .quoted inner => inner.nesting + 1
  | .sequence _ items => nestingAll items + 1
  | .tuple items => nestingAll items + 1
  | _ => 0

def nestingAll : List Value → Nat
  | [] => 0
  | v :: rest => max v.nesting (nestingAll rest)

end

mutual

/-- How many sequences there are in a value, itself included. -/
def sequences : Value → Nat
  | .quoted inner => inner.sequences
  | .sequence _ items => sequencesAll items + 1
  | .tuple items => sequencesAll items + 1
  | _ => 0

def sequencesAll : List Value → Nat
  | [] => 0
  | v :: rest => v.sequences + sequencesAll rest

end

mutual

/-- The characters of numbers, of `nil` and of true. A writer puts them down as
they are, whatever they mean to the reader. -/
def bare : Value → List Char
  | .symbol _ => []
  | .literal _ => []
  | .text _ => []
  | .int n => Number.intText n
  | .float x => x.text
  | .bool true => ['t']
  | .bool false => []
  | .nil => ['n', 'i', 'l']
  | .quoted inner => inner.bare
  | .sequence _ items => bareAll items
  | .tuple items => bareAll items

def bareAll : List Value → List Char
  | [] => []
  | v :: rest => v.bare ++ bareAll rest

end

/-- No bracket of the table is among the characters that are put down as they are. -/
def Legible (t : BracketTable) (v : Value) : Prop := ∀ c ∈ v.bare, t.isDelimiter c = false

instance (t : BracketTable) (v : Value) : Decidable (Legible t v) :=
  decidable_of_iff (v.bare.all fun c => !t.isDelimiter c) (by simp [Legible])

/-- Values that are made of symbols, text, integers, finite floats, quoted values
and sequences in brackets of the table. -/
inductive Readable (t : BracketTable) : Value → Prop
  | symbol {name : String} : name ≠ "" → Readable t (.symbol name)
  | text {content : String} : Readable t (.text content)
  | int {n : Int64} : Readable t (.int n)
  | float {x : Binary64} : x.isFinite = true → Readable t (.float x)
  | quoted {inner : Value} : Readable t inner → Readable t (.quoted inner)
  | sequence {kind : Bracket} {items : List Value} : kind ∈ t.kinds →
      (∀ v ∈ items, Readable t v) → Readable t (.sequence kind items)

variable {t : BracketTable} {o : PrintOptions}

mutual

theorem Readable.norm_eq {v : Value} (h : Readable t v) (hstyle : o.textStyle = .string) :
    v.norm o = v := by
  match h with
  | .symbol _ | .int | .float _ => simp only [norm]
  | .text => simp only [norm, hstyle]
  | .quoted hinner => rw [norm, hinner.norm_eq hstyle]
  | .sequence _ hitems => rw [norm, normAll_eq hitems hstyle]

theorem normAll_eq {items : List Value} (h : ∀ v ∈ items, Readable t v)
    (hstyle : o.textStyle = .string) : normAll o items = items := by
  match items with
  | [] => rfl
  | v :: rest =>
    have hv := h v (by simp)
    rw [normAll, hv.norm_eq hstyle, normAll_eq (fun u hu => h u (List.mem_cons_of_mem _ hu)) hstyle]

end

mutual

/-- All that is in a readable value has a spelling. -/
theorem Readable.spelled {v : Value} (h : Readable t v) : ∀ u ∈ v.parts, u.Spelled t := by
  match h with
  | .symbol hname => exact List.forall_mem_singleton.mpr hname
  | .text | .int => exact List.forall_mem_singleton.mpr trivial
  | .float hfinite => exact List.forall_mem_singleton.mpr hfinite
  | .quoted hinner =>
    rw [parts, List.forall_mem_cons]
    exact ⟨trivial, hinner.spelled⟩
  | .sequence hkind hitems =>
    rw [parts, List.forall_mem_cons]
    exact ⟨hkind, spelledAll hitems⟩

theorem spelledAll {items : List Value} (h : ∀ v ∈ items, Readable t v) :
    ∀ u ∈ partsAll items, u.Spelled t := by
  match items with
  | [] => simp [partsAll]
  | v :: rest =>
    rw [partsAll, List.forall_mem_append]
    exact ⟨(h v (by simp)).spelled, spelledAll fun u hu => h u (List.mem_cons_of_mem _ hu)⟩

end

/-- What is readable can be printed. -/
theorem Readable.exists_layout {v : Value} {w : Writer} (h : Readable w.brackets v)
    (hw : w.brackets.WellFormed) (hstyle : w.options.textStyle = .string) :
    ∃ l, v.layout w = .ok l :=
  Value.exists_layout fun u hu => (h.spelled u hu).fault?_eq_none hw hstyle

/-! ## The characters that are put down as they are -/

theorem isReserved_of_isNumeral {c : Char} (h : Number.IsNumeral c) : isReserved c = false := by
  rw [Bool.eq_false_iff]
  intro hc
  simp only [isReserved, isBlank, Bool.or_eq_true, beq_iff_eq, or_assoc] at hc
  -- none of the eight reserved characters is a numeral
  rcases hc with rfl | rfl | rfl | rfl | rfl | rfl | rfl | rfl <;>
    exact absurd h (by decide)

/-- Those of the value by itself, whatever is in it. -/
def bareSelf : Value → List Char
  | .bool true => ['t']
  | .nil => ['n', 'i', 'l']
  | v => v.numeral

mutual

theorem bare_eq (v : Value) : v.bare = v.parts.flatMap bareSelf := by
  match v with
  | .symbol _ | .literal _ | .text _ | .int _ | .float _ | .bool true | .bool false | .nil =>
    simp [bare, parts, bareSelf, numeral]
  | .quoted inner => simpa [bare, parts, bareSelf, numeral] using bare_eq inner
  | .sequence _ items | .tuple items =>
    simpa [bare, parts, bareSelf, numeral] using bareAll_eq items

theorem bareAll_eq (items : List Value) : bareAll items = (partsAll items).flatMap bareSelf := by
  match items with
  | [] => rfl
  | v :: rest => rw [bareAll, partsAll, List.flatMap_append, bare_eq v, bareAll_eq rest]

end

theorem isReserved_bareSelf (v : Value) : ∀ c ∈ v.bareSelf, isReserved c = false := by
  unfold bareSelf
  split
  · simp [isReserved, isBlank]
  · simp [isReserved, isBlank]
  · exact fun c hc => isReserved_of_isNumeral (isNumeral_numeral _ c hc)

theorem isReserved_bare (v : Value) : ∀ c ∈ v.bare, isReserved c = false := by
  intro c hc
  rw [bare_eq] at hc
  obtain ⟨u, -, hu⟩ := List.mem_flatMap.mp hc
  exact u.isReserved_bareSelf c hu

theorem Spelled.bareSelf_eq {v : Value} (h : v.Spelled t) : v.bareSelf = v.numeral := by
  cases v with
  | bool | nil => exact h.elim
  | _ => rfl

theorem Readable.isNumeral_bare {v : Value} (h : Readable t v) :
    ∀ c ∈ v.bare, Number.IsNumeral c := by
  intro c hc
  rw [bare_eq] at hc
  obtain ⟨u, hu, hc⟩ := List.mem_flatMap.mp hc
  rw [(h.spelled u hu).bareSelf_eq] at hc
  exact u.isNumeral_numeral c hc

end SExpr.Value
