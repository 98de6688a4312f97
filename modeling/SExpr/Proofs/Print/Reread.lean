import SExpr.Proofs.Print.Fault
import SExpr.Proofs.Print.Tokens

/-! # Printed values and a reader with names

A reader that was given names takes an atom for something else than a symbol by its
text alone, unless there is a backslash in it. A writer puts a backslash where a
character or a number would be misread, and knows nothing of names. `reread` is the
value that results: each symbol of such a name becomes what the name stands for. -/

namespace SExpr

/-- The number as a value. -/
def Number.toValue : Number → Value
  | .int n => .int n
  | .float x => .float x

namespace ParseOptions

variable {p : ParseOptions} {name : String}

/-- What the reader takes an atom with that text and without a backslash for, if the
text is one of its names. -/
def meaning? (p : ParseOptions) (name : String) : Option Value :=
  if p.nilName = some name then some (.list [])
  else if p.trueName = some name then some (.bool true)
  else if p.falseName = some name then some (.bool false)
  else none

theorem bareAtom_eq (p : ParseOptions) (name : String) :
    Reader.bareAtom p name = (p.meaning? name).getD (match Number.read? name.toList with
      | some (.int n) => .int n
      | some (.float x) => .float x
      | none => .symbol name) := by
  unfold Reader.bareAtom meaning?
  split_ifs <;> rfl

theorem meaning?_ne_symbol (other : String) : p.meaning? name ≠ some (.symbol other) := by
  unfold meaning?
  split_ifs <;> simp [Value.list]

theorem Unnamed.meaning?_eq_none (hp : p.Unnamed) (name : String) : p.meaning? name = none := by
  simp [meaning?, hp.nilName, hp.trueName, hp.falseName]

end ParseOptions

namespace Value

mutual

/-- The value with the symbols replaced that the reader has a meaning for. -/
def reread (p : ParseOptions) : Value → Value
  | .symbol name => (p.meaning? name).getD (.symbol name)
  | .literal content => .literal content
  | .text content => .text content
  | .int n => .int n
  | .float x => .float x
  | .bool b => .bool b
  | .nil => .nil
  | .quoted inner => .quoted (inner.reread p)
  | .sequence kind items => .sequence kind (rereadAll p items)
  | .tuple items => .tuple (rereadAll p items)

def rereadAll (p : ParseOptions) : List Value → List Value
  | [] => []
  | v :: rest => v.reread p :: rereadAll p rest

end

variable {p : ParseOptions}

mutual

/-- Only the symbols that the reader has a meaning for are lost. -/
theorem reread_eq_iff (v : Value) :
    v.reread p = v ↔ ∀ name, .symbol name ∈ v.parts → p.meaning? name = none := by
  match v with
  | .symbol name =>
    have hself : (p.meaning? name).getD (.symbol name) = .symbol name ↔ p.meaning? name = none := by
      cases h : p.meaning? name with
      | none => simp
      | some u =>
        have hne : u ≠ .symbol name := fun he => ParseOptions.meaning?_ne_symbol name (he ▸ h)
        simp [hne]
    simpa [reread, parts] using hself
  | .literal _ | .text _ | .int _ | .float _ | .bool _ | .nil => simp [reread, parts]
  | .quoted inner => simpa [reread, parts] using reread_eq_iff inner
  | .sequence _ items | .tuple items => simpa [reread, parts] using rereadAll_eq_iff items

theorem rereadAll_eq_iff (items : List Value) :
    rereadAll p items = items ↔ ∀ name, .symbol name ∈ partsAll items → p.meaning? name = none := by
  match items with
  | [] => simp [rereadAll, partsAll]
  | v :: rest =>
    simp only [rereadAll, partsAll, List.cons.injEq, List.mem_append, reread_eq_iff v,
      rereadAll_eq_iff rest, or_imp, forall_and]

end
end Value

namespace Writer

variable {w : Writer} {p : ParseOptions} {l : Layout} {ts : List Token} {bare : List Char}

/-- The value by itself comes back, whatever is in it. A truth value does if the
reader has a meaning for its text. -/
def Returns (w : Writer) (p : ParseOptions) (u : Value) : Prop :=
  u.Spelled w.brackets ∨ ∃ b ts, u = .bool b ∧ ReadsAs w p (w.bool b) ts (.bool b) [] (.bool b)

/-- Text is written between quotes, both sides keep to the default comment character,
and no name of the reader needs a backslash. -/
structure MeantFor (w : Writer) (p : ParseOptions) : Prop where
  brackets : w.brackets.WellFormed
  textStyle : w.options.textStyle = .string
  printComment : w.options.comment = ';'
  parseComment : p.comment = ';'
  plainNames : ∀ name, p.meaning? name ≠ none →
    Atom.isEscaped (Atom.encode (w.options.readtable w.brackets) name.toList) = false

theorem MeantFor.readtable (hm : w.MeantFor p) :
    (w.options.readtable w.brackets).WellFormed := by
  rw [PrintOptions.readtable, hm.printComment]
  exact hm.brackets.readtable

theorem Returns.fault?_eq_none (hm : w.MeantFor p) {u : Value} (h : w.Returns p u) :
    u.fault? w = none := by
  rcases h with h | ⟨b, ts, rfl, -⟩
  · exact h.fault?_eq_none hm.brackets hm.textStyle
  · rfl

/-- Characters that are no brackets do not count. -/
theorem ReadsAs.of_free {v shape : Value} (h : ReadsAs w p l ts shape bare v)
    (hfree : w.brackets.Spares bare) : ReadsAs w p l ts shape [] v := by
  refine ⟨h.lexes, ?_, fun _ => h.derives hfree⟩
  rw [h.count, BracketTable.spares_iff.mp hfree]
  rfl

/-- A name of the reader is written as it is, and nothing else is taken for one. -/
theorem readsAs_reread_symbol (hm : w.MeantFor p) {name : String} (h : w.symbol name = .ok l) :
    ∃ ts, ReadsAs w p l ts (.symbol name) [] ((Value.symbol name).reread p) := by
  obtain ⟨hname, -⟩ := symbol_eq_ok_iff.mp h
  have hread : (Value.symbol name).reread p = Reader.atom p name
      (Atom.isEscaped (Atom.encode (w.options.readtable w.brackets) name.toList)) := by
    rw [Value.reread]
    cases hescaped : Atom.isEscaped (Atom.encode (w.options.readtable w.brackets) name.toList) with
    | true =>
      have hnone : p.meaning? name = none := by
        by_contra hsome
        rw [hm.plainNames name hsome] at hescaped
        contradiction
      rw [hnone]
      rfl
    | false =>
      have hnumber := Atom.isNumber_of_isEscaped_encode (by simpa using hname) hescaped
      rw [Number.isNumber, Option.isSome_eq_false_iff, Option.isNone_iff_eq_none] at hnumber
      rw [Reader.atom, if_neg Bool.false_ne_true, p.bareAtom_eq, hnumber]
  rw [hread]
  exact readsAs_symbol hm.readtable h rfl

/-- The text of a number is none of the reader's names, and is read as the number. -/
theorem MeantFor.atom_eq (hm : w.MeantFor p) {word : List Char} {n : Number}
    (hread : Number.read? word = some n) : Reader.atom p (.ofList word) false = n.toValue := by
  have hnone : p.meaning? (.ofList word) = none := by
    by_contra hsome
    have hescaped := hm.plainNames _ hsome
    rw [String.toList_ofList] at hescaped
    have hnumber := Atom.isNumber_of_isEscaped_encode (ne_nil_of_read? hread) hescaped
    rw [Number.isNumber, hread] at hnumber
    contradiction
  rw [Reader.atom, if_neg Bool.false_ne_true, p.bareAtom_eq, hnone, String.toList_ofList, hread]
  cases n <;> rfl

mutual

/-- The brackets among the numbers are put down as they are, and without them the
value is read as its `reread`. -/
theorem exists_readsAs_reread (hm : w.MeantFor p) (v : Value)
    (hparts : ∀ u ∈ v.parts, w.Returns p u) {l : Layout} (h : v.layout w = .ok l) :
    ∃ ts, ReadsAs w p l ts v v.numerals (v.reread p) := by
  have hword : ∀ c ∈ v.numerals, isReserved c = false ∧ c ≠ w.options.comment := by
    intro c hc
    have hreserved := Value.isReserved_of_isNumeral (v.isNumeral_numerals c hc)
    rw [hm.printComment]
    exact ⟨hreserved, Readtable.ne_semicolon_of_not_isReserved hreserved⟩
  have hself := hparts v v.mem_parts_self
  match v with
  | .symbol name => exact readsAs_reread_symbol hm h
  | .text content =>
    rw [Value.layout, Writer.text, hm.textStyle] at h
    cases h
    exact readsAs_string hm.readtable content rfl
  | .int n =>
    cases h
    have hread := Number.read?_intText n
    have hbare : (Value.int n).numerals = Number.intText n := List.append_nil _
    rw [hbare] at hword ⊢
    exact readsAs_bare (ne_nil_of_read? hread) hword (hm.atom_eq hread) rfl
  | .float x =>
    rw [Value.layout] at h
    obtain ⟨hfinite, rfl⟩ := float_eq_ok_iff.mp h
    have hread := Binary64.read?_text hfinite
    have hbare : (Value.float x).numerals = x.text := List.append_nil _
    rw [hbare] at hword ⊢
    exact readsAs_bare (ne_nil_of_read? hread) hword (hm.atom_eq hread) rfl
  | .bool b =>
    cases h
    rcases hself with hself | ⟨b', ts, hb, hts⟩
    · contradiction
    · cases hb
      exact ⟨ts, hts⟩
  | .quoted inner =>
    obtain ⟨l', hinner, rfl⟩ := Value.layout_quoted_eq_ok_iff.mp h
    obtain ⟨ts, hts⟩ := exists_readsAs_reread hm inner
      (fun u hu => hparts u (List.mem_cons_of_mem _ hu)) hinner
    exact ⟨_, hts.quoted⟩
  | .sequence kind items =>
    obtain ⟨hknown, ls, hitems, rfl⟩ := Value.layout_sequence_eq_ok_iff.mp h
    have hkind := hm.brackets.contains_iff.mp hknown
    obtain ⟨ts, hts⟩ := exists_allReadAs_reread hm items
      (fun u hu => hparts u (List.mem_cons_of_mem _ hu)) hitems
    exact ⟨_, hts.sequence hkind⟩
  | .literal _ | .nil | .tuple _ =>
    rcases hself with hself | ⟨b, ts, hb, -⟩
    · exact hself.elim
    · contradiction

theorem exists_allReadAs_reread (hm : w.MeantFor p) (items : List Value)
    (hparts : ∀ u ∈ Value.partsAll items, w.Returns p u) {ls : List Layout}
    (h : Value.layouts w items = .ok ls) :
    ∃ ts, AllReadAs w p ls ts items (Value.numeralsAll items) (Value.rereadAll p items) := by
  match items with
  | [] =>
    cases h
    exact ⟨[], .nil⟩
  | v :: rest =>
    obtain ⟨l, hfirst, ls', hrest, rfl⟩ := Value.layouts_cons_eq_ok_iff.mp h
    obtain ⟨ts, hts⟩ := exists_readsAs_reread hm v
      (fun u hu => hparts u (List.mem_append_left _ hu)) hfirst
    obtain ⟨us, hus⟩ := exists_allReadAs_reread hm rest
      (fun u hu => hparts u (List.mem_append_right _ hu)) hrest
    rw [Value.numeralsAll_cons]
    exact ⟨ts ++ us, .cons hts hus⟩

end

end Writer
end SExpr
