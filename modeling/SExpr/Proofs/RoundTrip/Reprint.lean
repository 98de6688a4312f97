import SExpr.Proofs.Parse.Image
import SExpr.Proofs.RoundTrip.Lines
import SExpr.Reprint

/-! # Printing what was read

The source may spell its values in any way. Printed, one to a line, they are spelled
in one way only, and reading and printing that leads to the same lines again. Two
things stand against it: a number that overflowed has no spelling, and a number that
was read from other characters may be printed with one that is a bracket. -/

namespace SExpr

variable {w : Writer} {p : ParseOptions}

/-- A reader without names is what every writer with these choices writes for. -/
theorem ParseOptions.Unnamed.meantFor (hp : p.Unnamed) (hw : w.brackets.WellFormed)
    (hstyle : w.options.textStyle = .string) (hprint : w.options.comment = ';')
    (hparse : p.comment = ';') : w.MeantFor p :=
  ⟨hw, hstyle, hprint, hparse, fun name h => absurd (hp.meaning?_eq_none name) h⟩

/-- No symbol is lost to a reader without names. -/
theorem ParseOptions.Unnamed.rereadAll_eq (hp : p.Unnamed) (values : List Value) :
    Value.rereadAll p values = values :=
  (Value.rereadAll_eq_iff values).mpr fun name _ => hp.meaning?_eq_none name

namespace Value

/-- Of what is read, only an infinite number can not be printed. -/
theorem IsRead.fault?_eq_some_iff (hw : w.brackets.WellFormed)
    (hstyle : w.options.textStyle = .string) {u : Value} (h : u.IsRead w.brackets)
    {e : PrintError} :
    u.fault? w = some e ↔ ∃ x : Binary64, u = .float x ∧ x.IsInfinite ∧ e = .nonFinite x := by
  rcases h with h | ⟨x, rfl, hinfinite⟩
  · rw [h.fault?_eq_none hw hstyle]
    constructor
    · intro he
      contradiction
    · intro he
      obtain ⟨x, rfl, hinfinite, -⟩ := he
      have hfinite : x.isFinite = true := h
      rw [hinfinite.isFinite_eq_false] at hfinite
      contradiction
  · simp [fault?, hinfinite.isFinite_eq_false, hinfinite, eq_comm]

/-- A value that was read is not printed exactly if there is an infinite number in it. -/
theorem print_eq_error_iff_isInfinite [Display] (hw : w.brackets.WellFormed)
    (hstyle : w.options.textStyle = .string) {v : Value}
    (h : ∀ u ∈ v.parts, u.IsRead w.brackets) :
    ((∃ e, w.print v = .error e) ↔ ∃ x : Binary64, .float x ∈ v.parts ∧ x.IsInfinite) ∧
      ∀ e, w.print v = .error e →
        ∃ x : Binary64, .float x ∈ v.parts ∧ x.IsInfinite ∧ e = .nonFinite x := by
  have herror : ∀ e, w.print v = .error e →
      ∃ x : Binary64, .float x ∈ v.parts ∧ x.IsInfinite ∧ e = .nonFinite x := by
    intro e he
    obtain ⟨u, hu, hfault⟩ := List.exists_of_findSome?_eq_some (print_eq_error_iff.mp he)
    obtain ⟨x, rfl, hinfinite, rfl⟩ := ((h u hu).fault?_eq_some_iff hw hstyle).mp hfault
    exact ⟨x, hu, hinfinite, rfl⟩
  refine ⟨⟨?_, ?_⟩, herror⟩
  · intro he
    obtain ⟨e, he⟩ := he
    obtain ⟨x, hx, hinfinite, -⟩ := herror e he
    exact ⟨x, hx, hinfinite⟩
  · intro hx
    obtain ⟨x, hx, hinfinite⟩ := hx
    have hfault := ((h _ hx).fault?_eq_some_iff hw hstyle).mpr ⟨x, rfl, hinfinite, rfl⟩
    have hsome : (v.parts.findSome? (fault? w)).isSome = true := by
      rw [List.findSome?_isSome_iff]
      exact ⟨_, hx, by rw [hfault]; rfl⟩
    obtain ⟨e, he⟩ := Option.isSome_iff_exists.mp hsome
    exact ⟨e, print_eq_error_iff.mpr he⟩

end Value

namespace Reprint

theorem run_eq_ok [Display] {source : String} {values : List Value} {printed : List String}
    (h : parse w.brackets p source = .ok values) (hprint : values.mapM w.print = .ok printed) :
    run w p source = .ok ⟨values, printed, parse w.brackets p ("\n".intercalate printed)⟩ := by
  simp only [run, h, Except.mapError, bind, Except.bind, hprint]
  rfl

/-- What is read is printed unless a number in it overflowed. The lines are read as
the same values exactly if no bracket is among the characters of their numbers, and
then they are what these values are printed as. -/
theorem run_printed [Display] (ht : w.brackets.Reachable) (hstyle : w.options.textStyle = .string)
    (hprint : w.options.comment = ';') (hp : p.Unnamed) (hparse : p.comment = ';')
    {source : String} {values : List Value} (h : parse w.brackets p source = .ok values) :
    (∀ u ∈ Value.partsAll values, u.IsRead w.brackets) ∧
    (∀ v ∈ values,
      ((∃ e, w.print v = .error e) ↔ ∃ x : Binary64, .float x ∈ v.parts ∧ x.IsInfinite) ∧
      ∀ e, w.print v = .error e →
        ∃ x : Binary64, .float x ∈ v.parts ∧ x.IsInfinite ∧ e = .nonFinite x) ∧
    ((∀ x : Binary64, .float x ∈ Value.partsAll values → ¬ x.IsInfinite) →
      ∃ printed, run w p source =
          .ok ⟨values, printed, parse w.brackets p ("\n".intercalate printed)⟩ ∧
        (parse w.brackets p ("\n".intercalate printed) = .ok values ↔
          w.brackets.Spares (Value.numeralsAll values)) ∧
        (w.brackets.Spares (Value.numeralsAll values) →
          run w p ("\n".intercalate printed) = .ok ⟨values, printed, .ok values⟩)) := by
  obtain ⟨hread, hdepth⟩ := hp.isRead_of_parse h
  have hm := hp.meantFor ht.wellFormed hstyle hprint hparse
  refine ⟨hread, fun v hv => ?_, fun hfinite => ?_⟩
  · have hparts : ∀ u ∈ v.parts, u.IsRead w.brackets :=
      fun u hu => hread u (Value.mem_partsAll.mpr ⟨v, hv, hu⟩)
    exact Value.print_eq_error_iff_isInfinite ht.wellFormed hstyle hparts
  · have hreturns : ∀ u ∈ Value.partsAll values, w.Returns p u := by
      intro u hu
      rcases hread u hu with hspelled | ⟨x, rfl, hinfinite⟩
      · exact .inl hspelled
      · exact absurd hinfinite (hfinite x hu)
    obtain ⟨printed, hprinted, hsame, hfree⟩ := Writer.exists_lines hm hreturns hdepth
    rw [hp.rereadAll_eq] at hsame
    refine ⟨printed, run_eq_ok h hprinted, ⟨hfree, hsame⟩, fun hc => ?_⟩
    have hagain := hsame hc
    rw [run_eq_ok hagain hprinted, hagain]

/-- A sign, a comment and a backslash are gone the first time and stay away. -/
theorem run_printed_angles :
    parse (BracketTable.default.offerAll [⟨'<', '>'⟩]) { maxDepth := 2 } "+07; x\n <'\\a>" =
      .ok [.int 7, .sequence ⟨'<', '>'⟩ [.quoted (.symbol "a")]] ∧
    run ⟨BracketTable.default.offerAll [⟨'<', '>'⟩], { pretty := true, width := 4 }⟩
        { maxDepth := 2 } "7\n<'a>" =
      .ok ⟨[.int 7, .sequence ⟨'<', '>'⟩ [.quoted (.symbol "a")]], ["7", "<'a>"],
        .ok [.int 7, .sequence ⟨'<', '>'⟩ [.quoted (.symbol "a")]]⟩ := by
  have htokens : Tokenizes
      (ParseOptions.readtable { maxDepth := 2 } (BracketTable.default.offerAll [⟨'<', '>'⟩]))
      "+07; x\n <'\\a>"
      [.atom "+07" false, .opening ⟨'<', '>'⟩, .apostrophe, .atom "a" true, .closing ⟨'<', '>'⟩] :=
    ⟨by decide +kernel, by decide +kernel⟩
  have hread : parse (BracketTable.default.offerAll [⟨'<', '>'⟩]) { maxDepth := 2 }
      "+07; x\n <'\\a>" = .ok [.int 7, .sequence ⟨'<', '>'⟩ [.quoted (.symbol "a")]] :=
    parse_complete htokens
      (.cons .atom (.cons (.sequence Nat.two_pos (.cons (.quoted Nat.one_lt_two .atom) .nil)) .nil))
  obtain ⟨-, -, hlines⟩ := run_printed (w := ⟨BracketTable.default.offerAll [⟨'<', '>'⟩],
    { pretty := true, width := 4 }⟩) ⟨_, rfl⟩ rfl rfl ⟨rfl, rfl, rfl⟩ rfl hread
  obtain ⟨printed, hrun, -, hagain⟩ := hlines (by simp [Value.parts, Value.partsAll])
  have hprint : [Value.int 7, .sequence ⟨'<', '>'⟩ [.quoted (.symbol "a")]].mapM
      (Writer.print ⟨BracketTable.default.offerAll [⟨'<', '>'⟩], { pretty := true, width := 4 }⟩) =
      .ok ["7", "<'a>"] := by
    rw [funext (Writer.print_eq _)]
    rfl
  have hfirst := hrun.symm.trans (run_eq_ok hread hprint)
  obtain ⟨-, rfl, -⟩ := Reprint.mk.inj (Except.ok.inj hfirst)
  exact ⟨hread, hagain (by decide)⟩

/-- The number 5. -/
def five : Binary64 := ⟨0x4014000000000000⟩

/-- The point that was read becomes a point and a zero, and the zero is an opener. -/
theorem not_parse_printed_five :
    (BracketTable.default.offerAll [⟨'0', 'x'⟩]).Reachable ∧
    parse (BracketTable.default.offerAll [⟨'0', 'x'⟩]) {} "5." = .ok [.float five] ∧
    Writer.print ⟨BracketTable.default.offerAll [⟨'0', 'x'⟩], {}⟩ (.float five) = .ok "5.0" ∧
    parse (BracketTable.default.offerAll [⟨'0', 'x'⟩]) {} "5.0" ≠ .ok [.float five] := by
  have ht : (BracketTable.default.offerAll [⟨'0', 'x'⟩]).Reachable := ⟨_, rfl⟩
  have hfive : Number.read? "5.".toList = some (.float five) := by decide +kernel
  have htext : five.text = "5.0".toList := by decide +kernel
  have htokens : Tokenizes (ParseOptions.readtable {} (BracketTable.default.offerAll [⟨'0', 'x'⟩]))
      "5." [.atom "5." false] := ⟨by decide +kernel, by decide +kernel⟩
  have hm : Writer.Matches ⟨BracketTable.default.offerAll [⟨'0', 'x'⟩], {}⟩ {} :=
    ⟨rfl, rfl, rfl, rfl, rfl, rfl, rfl⟩
  have hread : parse (BracketTable.default.offerAll [⟨'0', 'x'⟩]) {} "5." = .ok [.float five] := by
    rw [parse_complete htokens (.cons .atom .nil), Derivation.values, Derivation.value,
      hm.unnamed.atom_eq, hfive]
    rfl
  have hprint : Writer.print ⟨BracketTable.default.offerAll [⟨'0', 'x'⟩], {}⟩ (.float five) =
      .ok "5.0" := by
    rw [Writer.print_eq_ok_iff]
    exact ⟨_, Writer.float_eq_ok_iff.mpr ⟨by decide, rfl⟩, by rw [htext]; rfl⟩
  have hillegible : ¬ (Value.float five).Legible (BracketTable.default.offerAll [⟨'0', 'x'⟩]) := by
    intro h
    have hzero : '0' ∈ (Value.float five).bare := by
      rw [Value.bare, htext]
      decide
    exact absurd (h '0' hzero) (by decide)
  have hagain := Writer.parse_eq_norm_iff hm ht.wellFormed.readtable hprint
    (Value.ne_semicolon _) (Nat.zero_le _)
  exact ⟨ht, hread, hprint, fun h => hillegible (hagain.mp h)⟩

end Reprint
end SExpr
