import SExpr.Proofs.Bracket.Extension
import SExpr.Proofs.Concat
import SExpr.Proofs.Print.Tokens

/-! # Symbols in any spelling

A backslash may stand before any character of a symbol and has to stand before those
that would not be part of an atom. However many of the others have one, the atom has the
same text and ends at the same place, and one backslash is enough for it to be a symbol.
A writer that knows more brackets than the reader escapes more than it has to, so what it
writes is one of the spellings too. -/

namespace SExpr

section
variable {t : BracketTable} {comment : Char} {name : String} {raw rest : List Char}

/-- An atom at the front of a text is the first value, and the rest is read as it is by
itself. -/
theorem parse_of_next {o : ParseOptions} {escaped : Bool}
    (h : Scan.next (o.readtable t) (raw ++ rest) = .more ⟨[], raw, .atom name escaped⟩ rest) :
    parse t o (.ofList (raw ++ rest)) =
      match parse t o (.ofList rest) with
      | .ok values => .ok (Reader.atom o name escaped :: values)
      | .error e => .error (e.relocate (Span.shift (Mark.start.advance raw))) := by
  have hscan := locatedFrom_of_more h .start
  have hmark : (Lexeme.located .start ⟨[], raw, .atom name escaped⟩).span.last =
      (Mark.start.advance raw).shift .start := (Mark.shift_start _).symm
  rw [hmark, Scan.locatedFrom_shift, Scan.locatedFrom_start, Scan.locatedFrom_start] at hscan
  have hderives : DerivesAll o.maxDepth 0 [.atom name escaped] [.atom name escaped] :=
    .cons .atom .nil
  unfold parse tokenize
  rw [String.toList_ofList, String.toList_ofList, hscan]
  simp only [TokenStream.prepend, TokenStream.relocate]
  rw [Reader.program_append hderives rfl, Reader.program_relocate]
  cases Reader.program o _ (scan (o.readtable t) rest).located.tokens <;> rfl

theorem parse_nil (o : ParseOptions) : parse t o (.ofList []) = .ok [] := by
  have htokens : tokenize (o.readtable t) (.ofList []) = ⟨[], none⟩ := by
    unfold tokenize
    rw [String.toList_ofList, scan_of_done rfl]
    rfl
  rw [parse, htokens, Reader.program.eq_def]

end

namespace Writer

theorem print_symbol [Display] {w : Writer} {name : String} (hname : name ≠ "") :
    w.print (.symbol name) =
      .ok (.ofList (Atom.encode (w.options.readtable w.brackets) name.toList)) := by
  rw [print_eq_ok_iff]
  exact ⟨_, symbol_eq_ok_iff.mpr ⟨hname, rfl⟩, (w.render_atom _).symm⟩

end Writer

/-- A symbol may be spelled with any number of backslashes. Each spelling is cut off whole
wherever an atom is over, and with a backslash in it it is read as the symbol whatever
names the reader has. What a writer with more brackets writes is a spelling for a reader
with fewer, and read as the symbol it was written for. -/
theorem next_symbol_spelled [Display] {t : BracketTable} (ht : t.Reachable) {comment : Char}
    (hcomment : comment ≠ '\\') {name : String} (hname : name ≠ "") :
    (∀ raw rest, Atom.Spelling ⟨t, comment⟩ name.toList raw →
      (∀ c ∈ rest.head?, (⟨t, comment⟩ : Readtable).endsAtom c = true) →
      Scan.next ⟨t, comment⟩ (raw ++ rest) =
        .more ⟨[], raw, .atom name (decide ('\\' ∈ raw))⟩ rest ∧
      ('\\' ∈ raw → ∀ o : ParseOptions, o.comment = comment →
        parse t o (.ofList (raw ++ rest)) =
          match parse t o (.ofList rest) with
          | .ok values => .ok (.symbol name :: values)
          | .error e => .error (e.relocate (Span.shift (Mark.start.advance raw))))) ∧
    ∀ more, ∃ raw, Atom.encode ⟨t.offerAll more, comment⟩ name.toList = raw ∧
      Atom.Spelling ⟨t, comment⟩ name.toList raw ∧
      ('\\' ∉ raw → Number.isNumber name.toList = false) ∧
      ∀ (o : PrintOptions) (p : ParseOptions), o.comment = comment → p.comment = comment →
        p.Unnamed → Writer.print ⟨t.offerAll more, o⟩ (.symbol name) = .ok (.ofList raw) ∧
          parse t p (.ofList raw) = .ok [.symbol name] := by
  have hescape := @Readtable.role_backslash ⟨t, comment⟩ ht.wellFormed hcomment.symm
  have hnext : ∀ raw rest, Atom.Spelling ⟨t, comment⟩ name.toList raw →
      (∀ c ∈ rest.head?, (⟨t, comment⟩ : Readtable).endsAtom c = true) →
      Scan.next ⟨t, comment⟩ (raw ++ rest) =
        .more ⟨[], raw, .atom name (decide ('\\' ∈ raw))⟩ rest := by
    intro raw rest hspelling hends
    have hstop : Atom.Stops ⟨t, comment⟩ rest := by
      cases rest with
      | nil => trivial
      | cons c rest => exact stops_of_role hescape (by simpa [Readtable.endsAtom] using hends) rest
    have hnext := next_of_spelling hescape (by simpa using hname) hspelling hstop
    rwa [String.ofList_toList, Atom.isEscaped_eq] at hnext
  refine ⟨fun raw rest hspelling hends => ⟨hnext raw rest hspelling hends, ?_⟩, fun more => ?_⟩
  · intro hmem o ho
    subst ho
    have hread := parse_of_next (o := o) (hnext raw rest hspelling hends)
    rwa [decide_eq_true hmem] at hread
  · have hextends := ht.wellFormed.extends_offerAll more
    have hspelling := Atom.spelling_encode (fun _ => hextends.endsAtom comment) name.toList
    refine ⟨_, rfl, hspelling, fun hmem => ?_, fun o p ho hp hunnamed => ?_⟩
    · have hescaped : Atom.isEscaped (Atom.encode ⟨t.offerAll more, comment⟩ name.toList) =
          false := by
        rw [Atom.isEscaped_eq, decide_eq_false_iff_not]
        exact hmem
      exact Atom.isNumber_of_isEscaped_encode (by simpa using hname) hescaped
    · have hcut := hnext _ [] hspelling (by simp)
      subst ho
      rw [← hp] at hcut ⊢
      have hread := parse_of_next (o := p) hcut
      rw [List.append_nil, parse_nil, ← Atom.isEscaped_eq, hunnamed.atom_encode _ hname] at hread
      refine ⟨?_, hread⟩
      rw [hp]
      exact Writer.print_symbol hname

/-- A backslash in the text of a number, before a comment, makes it a symbol even where the
text is the name of nil. A writer for which the point and the last digit are brackets
escapes all three characters. -/
theorem next_symbol_spelled_digits :
    (BracketTable.default.offerAll [⟨'<', '>'⟩]).Reachable ∧ ('#' : Char) ≠ '\\' ∧ "1.5" ≠ "" ∧
    Scan.next ⟨BracketTable.default.offerAll [⟨'<', '>'⟩], '#'⟩ ("1\\.5".toList ++ "#1".toList) =
      .more ⟨[], "1\\.5".toList, .atom "1.5" true⟩ "#1".toList ∧
    parse (BracketTable.default.offerAll [⟨'<', '>'⟩]) { comment := '#', nilName := some "1.5" }
      "1\\.5#1" = .ok [.symbol "1.5"] ∧
    Atom.encode ⟨(BracketTable.default.offerAll [⟨'<', '>'⟩]).offerAll [⟨'.', '5'⟩], '#'⟩
      "1.5".toList = "\\1\\.\\5".toList ∧
    parse (BracketTable.default.offerAll [⟨'<', '>'⟩]) { comment := '#' } "\\1\\.\\5" =
      .ok [.symbol "1.5"] := by
  have ht : (BracketTable.default.offerAll [⟨'<', '>'⟩]).Reachable := ⟨_, rfl⟩
  have hcomment : ('#' : Char) ≠ '\\' := by decide
  have hname : "1.5" ≠ "" := by decide
  obtain ⟨hread, hwritten⟩ := next_symbol_spelled ht hcomment hname
  have hspelling : Atom.Spelling ⟨BracketTable.default.offerAll [⟨'<', '>'⟩], '#'⟩
      "1.5".toList "1\\.5".toList :=
    .bare (Atom.isBare_iff.mpr (by decide)) <| .escaped '.' <|
      .bare (Atom.isBare_iff.mpr (by decide)) .nil
  have hends : ∀ c ∈ "#1".toList.head?,
      (⟨BracketTable.default.offerAll [⟨'<', '>'⟩], '#'⟩ : Readtable).endsAtom c = true := by
    intro c hc
    cases hc
    decide
  obtain ⟨hnext, hparse⟩ := hread _ _ hspelling hends
  obtain ⟨raw, hraw, -, -, hreread⟩ := hwritten [⟨'.', '5'⟩]
  have hencode : Atom.encode ⟨(BracketTable.default.offerAll [⟨'<', '>'⟩]).offerAll [⟨'.', '5'⟩],
      '#'⟩ "1.5".toList = "\\1\\.\\5".toList := by decide
  have hcomments :
      tokenize ⟨BracketTable.default.offerAll [⟨'<', '>'⟩], '#'⟩ "#1" = ⟨[], none⟩ := by
    decide +kernel
  have hrest : parse (BracketTable.default.offerAll [⟨'<', '>'⟩])
      { comment := '#', nilName := some "1.5" } (.ofList "#1".toList) = .ok [] := by
    rw [String.ofList_toList, parse, ParseOptions.readtable, hcomments, Reader.program.eq_def]
  have hnamed := hparse (by decide) { comment := '#', nilName := some "1.5" } rfl
  rw [hrest] at hnamed
  rw [hencode] at hraw
  subst hraw
  exact ⟨ht, hcomment, hname, hnext, hnamed, hencode,
    (hreread { comment := '#' } { comment := '#' } rfl rfl ⟨rfl, rfl, rfl⟩).2⟩

end SExpr
