import SExpr.Proofs.RoundTrip.Lines

/-! # Names that writer and reader share

A writer and a reader are given the same three texts, for `nil`, for true and for
false. Truth values come back. So do symbols, but for those of just these three
texts: the writer escapes what looks like a bracket or a number, and a name looks
like a symbol. -/

namespace SExpr

/-- What `nil`, true and false are called. -/
structure Names where
  nil : String
  yes : String
  no : String

namespace Names

def all (names : Names) : List String := [names.nil, names.yes, names.no]

def printOptions (names : Names) (pretty : Bool) (width : Nat) : PrintOptions :=
  { pretty := pretty, width := width,
    nilName := names.nil, trueName := names.yes, falseName := names.no }

def parseOptions (names : Names) : ParseOptions :=
  { nilName := some names.nil, trueName := some names.yes, falseName := some names.no }

/-- The names are three words, none of them a number. -/
structure Usable (t : BracketTable) (names : Names) : Prop where
  nodup : names.all.Nodup
  ne_empty : ∀ name ∈ names.all, name ≠ ""
  not_number : ∀ name ∈ names.all, Number.isNumber name.toList = false
  not_reserved : ∀ name ∈ names.all, ∀ c ∈ name.toList, isReserved c = false
  not_delimiter : ∀ name ∈ names.all, t.Spares name.toList

variable {t : BracketTable} {names : Names} {pretty : Bool} {width : Nat}

theorem meaning?_eq_none_iff {name : String} :
    names.parseOptions.meaning? name = none ↔ name ∉ names.all := by
  simp only [ParseOptions.meaning?, parseOptions, Option.some.injEq, all, List.mem_cons,
    List.not_mem_nil, or_false, not_or, eq_comm (a := name)]
  split_ifs <;> simp_all

theorem Usable.meaning?_bool (hn : names.Usable t) (b : Bool) :
    names.parseOptions.meaning? (if b then names.yes else names.no) = some (.bool b) := by
  have hnodup := hn.nodup
  simp only [all, List.nodup_cons, List.mem_cons, List.not_mem_nil, or_false, not_or] at hnodup
  obtain ⟨⟨hyes, hno⟩, hyesno, -⟩ := hnodup
  cases b <;> simp [ParseOptions.meaning?, parseOptions, hyes, hno, hyesno]

theorem Usable.meantFor (ht : t.WellFormed) (hn : names.Usable t) :
    Writer.MeantFor ⟨t, names.printOptions pretty width⟩ names.parseOptions where
  brackets := ht
  textStyle := rfl
  printComment := rfl
  parseComment := rfl
  plainNames name hname := by
    have hmem : name ∈ names.all := by
      by_contra h
      exact hname (meaning?_eq_none_iff.mpr h)
    refine Atom.isEscaped_encode_eq_false (fun c hc => ?_) (hn.not_number name hmem)
    have hreserved := hn.not_reserved name hmem c hc
    have hcomment : (c == ';') = false := by
      rw [isReserved, Bool.or_eq_false_iff] at hreserved
      exact hreserved.2
    exact Bool.or_eq_false_iff.mpr ⟨Bool.or_eq_false_iff.mpr ⟨hreserved, hcomment⟩,
      hn.not_delimiter name hmem c hc⟩

/-- The name of a truth value is read as that truth value. -/
theorem Usable.returns_bool (hn : names.Usable t) (b : Bool) :
    Writer.Returns ⟨t, names.printOptions pretty width⟩ names.parseOptions (.bool b) := by
  have hmem : (if b then names.yes else names.no) ∈ names.all := by cases b <;> simp [all]
  have hword : ∀ c ∈ (if b then names.yes else names.no).toList,
      isReserved c = false ∧ c ≠ ';' := by
    intro c hc
    have hreserved := hn.not_reserved _ hmem c hc
    exact ⟨hreserved, Readtable.ne_semicolon_of_not_isReserved hreserved⟩
  have hread : Reader.atom names.parseOptions
      (.ofList (if b then names.yes else names.no).toList) false = .bool b := by
    rw [String.ofList_toList, Reader.atom, if_neg Bool.false_ne_true, ParseOptions.bareAtom_eq,
      hn.meaning?_bool]
    rfl
  have hne : (if b then names.yes else names.no).toList ≠ [] := by
    simpa using hn.ne_empty _ hmem
  obtain ⟨ts, hts⟩ := (Writer.readsAs_bare hne hword hread rfl :
    ∃ ts, Writer.ReadsAs ⟨t, names.printOptions pretty width⟩ _ _ ts (.bool b) _ _)
  rw [String.ofList_toList] at hts
  exact .inr ⟨b, ts, rfl, hts.of_free (hn.not_delimiter _ hmem)⟩

/-- One value, printed and read again. -/
theorem Usable.exists_text [Display] (ht : t.WellFormed) (hn : names.Usable t) (pretty : Bool)
    (width : Nat) {v : Value} (hparts : ∀ u ∈ v.parts, u.Spelled t ∨ ∃ b, u = .bool b)
    (hdepth : v.nesting ≤ 1024) :
    ∃ text, Writer.print ⟨t, names.printOptions pretty width⟩ v = .ok text ∧
      (t.Spares v.numerals →
        parse t names.parseOptions text = .ok [v.reread names.parseOptions]) ∧
      (parse t names.parseOptions text = .ok [v] → t.Spares v.numerals) := by
  have hreturns : ∀ u ∈ Value.partsAll [v],
      Writer.Returns ⟨t, names.printOptions pretty width⟩ names.parseOptions u := by
    intro u hu
    rw [Value.partsAll, Value.partsAll, List.append_nil] at hu
    rcases hparts u hu with h | ⟨b, rfl⟩
    · exact .inl h
    · exact hn.returns_bool b
  have hnesting : Value.nestingAll [v] ≤ names.parseOptions.maxDepth := by
    rw [Value.nestingAll, Value.nestingAll, Nat.max_zero]
    exact hdepth
  obtain ⟨printed, hprint, hread, hfree⟩ := Writer.exists_lines (hn.meantFor ht) hreturns hnesting
  simp only [List.mapM_cons, List.mapM_nil, bind_eq_ok_iff, pure_eq_ok_iff] at hprint
  obtain ⟨text, htext, _, rfl, rfl⟩ := hprint
  have hnumerals : Value.numeralsAll [v] = v.numerals :=
    (Value.numeralsAll_cons v []).trans (List.append_nil _)
  rw [String.intercalate_singleton, hnumerals] at hread hfree
  exact ⟨text, htext, hread, hfree⟩

/-- At any width a value is printed, and it comes back exactly if no bracket is among
the characters of its numbers and none of the names is a symbol in it. Each symbol of
such a name is read as what it is the name of, and nothing else is changed. -/
theorem parse_printed_iff [Display] (ht : t.Reachable) (hn : names.Usable t) (pretty : Bool)
    (width : Nat) {v : Value} (hparts : ∀ u ∈ v.parts, u.Spelled t ∨ ∃ b, u = .bool b)
    (hdepth : v.nesting ≤ 1024) :
    ∃ text, Writer.print ⟨t, names.printOptions pretty width⟩ v = .ok text ∧
      (parse t names.parseOptions text = .ok [v] ↔
        t.Spares v.numerals ∧ ∀ name ∈ names.all, .symbol name ∉ v.parts) ∧
      (t.Spares v.numerals →
        parse t names.parseOptions text = .ok [v.reread names.parseOptions]) := by
  obtain ⟨text, hprint, hread, hfree⟩ := hn.exists_text ht.wellFormed pretty width hparts hdepth
  have hself : v.reread names.parseOptions = v ↔ ∀ name ∈ names.all, .symbol name ∉ v.parts := by
    rw [Value.reread_eq_iff]
    constructor
    · intro h name hname hmem
      exact meaning?_eq_none_iff.mp (h name hmem) hname
    · intro h name hmem
      exact meaning?_eq_none_iff.mpr fun hname => h name hname hmem
  refine ⟨text, hprint, ⟨fun h => ?_, fun h => ?_⟩, hread⟩
  · have hnumerals := hfree h
    rw [hread hnumerals] at h
    exact ⟨hnumerals, hself.mp (List.cons.inj (Except.ok.inj h)).1⟩
  · rw [hread h.1, hself.mpr h.2]

/-- Truth values come back, and so does a symbol that is longer than a name. -/
theorem parse_printed_yes :
    Usable .default ⟨"nil", "yes", "no"⟩ ∧
    Writer.print ⟨.default, Names.printOptions ⟨"nil", "yes", "no"⟩ true 8⟩
        (.list [.bool true, .symbol "yes?", .quoted (.int 5), .list [.bool false]]) =
      .ok "(yes\n yes?\n '5\n (no))" ∧
    parse .default (Names.parseOptions ⟨"nil", "yes", "no"⟩) "(yes\n yes?\n '5\n (no))" =
      .ok [.list [.bool true, .symbol "yes?", .quoted (.int 5), .list [.bool false]]] := by
  have hn : Usable .default ⟨"nil", "yes", "no"⟩ :=
    ⟨by decide, by decide, by decide, by simp [all, isReserved, isBlank], by decide⟩
  have hprint : Writer.print ⟨.default, Names.printOptions ⟨"nil", "yes", "no"⟩ true 8⟩
      (.list [.bool true, .symbol "yes?", .quoted (.int 5), .list [.bool false]]) =
      .ok "(yes\n yes?\n '5\n (no))" := (Writer.print_eq _ _).trans rfl
  have ht : BracketTable.default.Reachable := ⟨[], rfl⟩
  have hparts : ∀ u ∈ (Value.list [.bool true, .symbol "yes?", .quoted (.int 5),
      .list [.bool false]]).parts, u.Spelled .default ∨ ∃ b, u = .bool b := by
    simp [Value.list, Value.parts, Value.partsAll, Value.Spelled, ht.wellFormed.parens_mem]
  obtain ⟨text, htext, hread, -⟩ := parse_printed_iff ht hn true 8 hparts (by decide)
  obtain rfl := Except.ok.inj (hprint.symm.trans htext)
  have hnames : ∀ name ∈ all ⟨"nil", "yes", "no"⟩, .symbol name ∉ (Value.list [.bool true,
      .symbol "yes?", .quoted (.int 5), .list [.bool false]]).parts := by
    simp [all, Value.list, Value.parts, Value.partsAll]
  exact ⟨hn, hprint, hread.mpr ⟨by decide, hnames⟩⟩

/-- The symbol `nil` is printed like `nil` itself, and is read as the empty list. -/
theorem not_parse_printed_symbol_nil :
    BracketTable.default.Reachable ∧ Usable .default ⟨"nil", "t", "f"⟩ ∧
    (Value.symbol "nil").Spelled .default ∧
    Writer.print ⟨.default, Names.printOptions ⟨"nil", "t", "f"⟩ false 80⟩ (.symbol "nil") =
      .ok "nil" ∧
    parse .default (Names.parseOptions ⟨"nil", "t", "f"⟩) "nil" ≠ .ok [.symbol "nil"] := by
  have hn : Usable .default ⟨"nil", "t", "f"⟩ :=
    ⟨by decide, by decide, by decide, by simp [all, isReserved, isBlank], by decide⟩
  have ht : BracketTable.default.Reachable := ⟨[], rfl⟩
  have hspelled : (Value.symbol "nil").Spelled .default := by decide
  have hprint : Writer.print ⟨.default, Names.printOptions ⟨"nil", "t", "f"⟩ false 80⟩
      (.symbol "nil") = .ok "nil" := rfl
  have hparts : ∀ u ∈ (Value.symbol "nil").parts, u.Spelled .default ∨ ∃ b, u = .bool b :=
    List.forall_mem_singleton.mpr (.inl hspelled)
  obtain ⟨text, htext, hread, -⟩ := hn.exists_text ht.wellFormed false 80 hparts (by decide)
  obtain rfl := Except.ok.inj (hprint.symm.trans htext)
  refine ⟨ht, hn, hspelled, hprint, ?_⟩
  rw [hread (by decide)]
  intro h
  cases h

end Names
end SExpr
