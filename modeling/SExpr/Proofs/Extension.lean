import SExpr.Parse
import SExpr.Proofs.Bracket.Extension
import SExpr.Proofs.Print.Layout
import SExpr.Proofs.Token.Spelling
import SExpr.Proofs.Value.Parts

/-! # Reading and printing with more brackets

Two readers take a text through the same steps if one knows more brackets than the
other and none of these is met where it counts: as itself in an atom. In a string, in
a comment or behind a backslash a bracket is like any other character. Two writers
print a value alike if no symbol that they write has one of these brackets in it. -/

namespace SExpr

open BracketTable (Extends)

/-! ## Texts -/

namespace Atom

/-- The characters of a written atom that stand for themselves: neither a backslash
nor behind one. -/
def unescaped : List Char → List Char
  | [] => []
  | ['\\'] => []
  | '\\' :: _ :: rest => unescaped rest
  | c :: rest => c :: unescaped rest

variable {rt rt' : Readtable}

theorem unescaped_plain {c : Char} (hescape : c ≠ '\\') (rest : List Char) :
    unescaped (c :: rest) = c :: unescaped rest := by
  rw [unescaped]
  · exact fun hc _ => hescape hc
  · exact fun _ _ hc _ => hescape hc

/-- An atom has the same end if none of its characters could end it elsewhere. -/
theorem split_eq_split (hends : ∀ c, rt.endsAtom c = true → rt'.endsAtom c = true)
    (text : List Char) (hsame : ∀ c ∈ unescaped (split rt text).1, rt'.endsAtom c = rt.endsAtom c) :
    split rt' text = split rt text := by
  induction text using escape_induction with
  | nil => rfl
  | lone => rfl
  | escape c rest ih =>
    rw [split_escape] at hsame ⊢
    rw [split_escape, ih hsame]
  | plain c rest hescape ih =>
    cases hstop : rt.endsAtom c with
    | true =>
      have hstops : Stops rt (c :: rest) := ⟨hstop, hescape⟩
      have hstops' : Stops rt' (c :: rest) := ⟨hends c hstop, hescape⟩
      rw [split_stops hstops, split_stops hstops']
    | false =>
      rw [split_constituent hstop hescape, unescaped_plain hescape, List.forall_mem_cons] at hsame
      rw [split_constituent (hsame.1.trans hstop) hescape, split_constituent hstop hescape,
        ih hsame.2]

end Atom

/-- The characters of a token that stand for themselves; only atoms have such. -/
def Lexeme.bare (l : Lexeme) : List Char :=
  match l.token with
  | .atom _ _ => Atom.unescaped l.raw
  | _ => []

/-- The characters that stand for themselves in the atoms of a text, up to its end or
to a string that never ends. -/
def Scan.bare (s : Scan) : List Char := s.lexemes.flatMap Lexeme.bare

namespace BracketTable.Extends

variable {t t' : BracketTable} (h : t.Extends t') (comment : Char)
include h

theorem splitGap_eq (inComment : Bool) (text : List Char) :
    Scan.splitGap ⟨t', comment⟩ inComment text = Scan.splitGap ⟨t, comment⟩ inComment text := by
  induction text generalizing inComment with
  | nil => rfl
  | cons c rest ih =>
    cases inComment with
    | true => simp only [Scan.splitGap, if_true, ih]
    | false =>
      simp only [Scan.splitGap, Bool.false_eq_true, if_false]
      cases hgains : t.gains t' c with
      | false => simp only [h.role_eq comment hgains, ih]
      | true =>
        rcases h.role_of_gains comment hgains with
          ⟨hlater, hearlier⟩ | ⟨⟨k, hlater⟩ | ⟨k, hlater⟩, hearlier⟩
        · simp only [hlater, hearlier, ih]
        · simp only [hlater, hearlier]
        · simp only [hlater, hearlier]

/-- The same first lexeme: what was gained is in no atom, so it starts no token. -/
theorem next_eq {text : List Char}
    (hfree : ∀ l rest, Scan.next ⟨t, comment⟩ text = .more l rest →
      ∀ c ∈ l.bare, t.gains t' c = false) :
    Scan.next ⟨t', comment⟩ text = Scan.next ⟨t, comment⟩ text := by
  have hgap := h.splitGap_eq comment false text
  cases hafter : (Scan.splitGap ⟨t, comment⟩ false text).2 with
  | nil => simp only [Scan.next, hgap, hafter]
  | cons c rest =>
    obtain ⟨hblank, hcomment⟩ := Scan.role_of_splitGap hafter
    by_cases hrole : (⟨t, comment⟩ : Readtable).role c = .constituent
    · have hatom : ∀ d ∈ Atom.unescaped (Atom.split ⟨t, comment⟩ (c :: rest)).1,
          t.gains t' d = false :=
        hfree ⟨_, _, .atom _ _⟩ _ (by simp only [Scan.next, hafter, hrole]; rfl)
      have hsplit := Atom.split_eq_split (fun _ => h.endsAtom comment) (c :: rest)
        fun d hd => h.endsAtom_eq comment (hatom d hd)
      have hfirst : t.gains t' c = false := by
        by_cases hescape : c = '\\'
        · exact h.gains_of_isReserved (hescape ▸ rfl)
        · rw [Atom.split_constituent (Readtable.endsAtom_constituent hrole) hescape,
            Atom.unescaped_plain hescape, List.forall_mem_cons] at hatom
          exact hatom.1
      simp only [Scan.next, hgap, hafter, h.role_eq comment hfirst, hrole, hsplit]
    · have hsame : (⟨t', comment⟩ : Readtable).role c = (⟨t, comment⟩ : Readtable).role c := by
        cases hgains : t.gains t' c with
        | false => exact h.role_eq comment hgains
        | true =>
          rcases h.role_of_gains comment hgains with ⟨-, hearlier⟩ | ⟨-, hearlier⟩
          · exact absurd hearlier hcomment
          · exact absurd hearlier hrole
      simp only [Scan.next, hgap, hafter, hsame]
      cases hcase : (⟨t, comment⟩ : Readtable).role c with
      | constituent => exact absurd hcase hrole
      | blank => exact absurd hcase hblank
      | comment => exact absurd hcase hcomment
      | opening _ | closing _ | apostrophe | quote => rfl

theorem scan_eq (text : List Char)
    (hfree : ∀ c ∈ (scan ⟨t, comment⟩ text).bare, t.gains t' c = false) :
    scan ⟨t', comment⟩ text = scan ⟨t, comment⟩ text := by
  have hnext : Scan.next ⟨t', comment⟩ text = Scan.next ⟨t, comment⟩ text := by
    refine h.next_eq comment fun l rest hmore c hc => hfree c ?_
    rw [scan_of_more hmore, Scan.bare, List.flatMap_cons]
    exact List.mem_append_left _ hc
  cases hmore : Scan.next ⟨t, comment⟩ text with
  | done ending => rw [scan_of_done hmore, scan_of_done (hnext.trans hmore)]
  | more l rest =>
    have hlt := Scan.length_lt_of_next hmore
    rw [scan_of_more hmore, Scan.bare, List.flatMap_cons] at hfree
    have hrest := scan_eq rest fun c hc => hfree c (List.mem_append_right _ hc)
    rw [scan_of_more hmore, scan_of_more (hnext.trans hmore), hrest]
termination_by text.length

end BracketTable.Extends

/-! ## Values -/

namespace Value

/-- The text of a value that is written as a symbol; other values have none. -/
def symbolText (style : TextStyle) : Value → List Char
  | .symbol name => name.toList
  | .text content => if style = .symbol then content.toList else []
  | _ => []

/-- The texts of the symbols that a value is written with, one after another. -/
def symbolTexts (style : TextStyle) (v : Value) : List Char := v.parts.flatMap (symbolText style)

def symbolTextsAll (style : TextStyle) (items : List Value) : List Char :=
  (partsAll items).flatMap (symbolText style)

theorem symbolTextsAll_cons (style : TextStyle) (v : Value) (rest : List Value) :
    symbolTextsAll style (v :: rest) = v.symbolTexts style ++ symbolTextsAll style rest := by
  rw [symbolTextsAll, partsAll, List.flatMap_append]
  rfl

end Value

namespace BracketTable.Extends

variable {t t' : BracketTable} {o : PrintOptions}

theorem encode_eq (h : t.Extends t') {text : List Char} (hfree : ∀ c ∈ text, t.gains t' c = false) :
    Atom.encode (o.readtable t') text = Atom.encode (o.readtable t) text := by
  have hescape : ∀ c ∈ text, (o.readtable t').mustEscape c = (o.readtable t).mustEscape c :=
    fun c hc => h.mustEscape_eq o.comment (hfree c hc)
  have hplain : Atom.plain (o.readtable t') text = Atom.plain (o.readtable t) text := by
    refine List.flatMap_congr fun c hc => ?_
    rw [Atom.encodeChar, Atom.encodeChar, hescape c hc]
  cases text with
  | nil => rfl
  | cons c rest => rw [Atom.encode_cons, Atom.encode_cons, hplain, hescape c (by simp)]

theorem symbol_eq (h : t.Extends t') {name : String}
    (hfree : ∀ c ∈ name.toList, t.gains t' c = false) :
    Writer.symbol ⟨t', o⟩ name = Writer.symbol ⟨t, o⟩ name := by
  unfold Writer.symbol
  rw [h.encode_eq hfree]

mutual

theorem layout_eq (h : t.Extends t') {v : Value} {l : Layout} (hl : v.layout ⟨t, o⟩ = .ok l)
    (hfree : ∀ c ∈ v.symbolTexts o.textStyle, t.gains t' c = false) :
    v.layout ⟨t', o⟩ = .ok l := by
  match v with
  | .symbol name =>
    have hsymbol : Writer.symbol ⟨t', o⟩ name = Writer.symbol ⟨t, o⟩ name :=
      h.symbol_eq (by simpa [Value.symbolTexts, Value.parts, Value.symbolText] using hfree)
    rw [Value.layout, hsymbol]
    exact hl
  | .text content =>
    rw [Value.layout, Writer.text] at hl ⊢
    cases hstyle : o.textStyle with
    | string => simpa only [hstyle] using hl
    | symbol =>
      rw [hstyle] at hfree
      have hsymbol : Writer.symbol ⟨t', o⟩ content = Writer.symbol ⟨t, o⟩ content :=
        h.symbol_eq (by simpa [Value.symbolTexts, Value.parts, Value.symbolText] using hfree)
      simpa only [hstyle, hsymbol] using hl
  | .literal _ | .int _ | .float _ | .bool _ | .nil => exact hl
  | .quoted inner =>
    obtain ⟨l', hinner, rfl⟩ := Value.layout_quoted_eq_ok_iff.mp hl
    exact Value.layout_quoted_eq_ok_iff.mpr ⟨l', h.layout_eq hinner hfree, rfl⟩
  | .sequence kind items =>
    obtain ⟨hknown, ls, hitems, rfl⟩ := Value.layout_sequence_eq_ok_iff.mp hl
    exact Value.layout_sequence_eq_ok_iff.mpr
      ⟨h.contains hknown, ls, h.layouts_eq hitems hfree, rfl⟩
  | .tuple items =>
    obtain ⟨ls, hitems, rfl⟩ := Value.layout_tuple_eq_ok_iff.mp hl
    exact Value.layout_tuple_eq_ok_iff.mpr ⟨ls, h.layouts_eq hitems hfree, rfl⟩

theorem layouts_eq (h : t.Extends t') {items : List Value} {ls : List Layout}
    (hl : Value.layouts ⟨t, o⟩ items = .ok ls)
    (hfree : ∀ c ∈ Value.symbolTextsAll o.textStyle items, t.gains t' c = false) :
    Value.layouts ⟨t', o⟩ items = .ok ls := by
  match items with
  | [] => exact hl
  | v :: rest =>
    obtain ⟨l, hfirst, ls', hrest, rfl⟩ := Value.layouts_cons_eq_ok_iff.mp hl
    rw [Value.symbolTextsAll_cons, List.forall_mem_append] at hfree
    exact Value.layouts_cons_eq_ok_iff.mpr
      ⟨l, h.layout_eq hfirst hfree.1, ls', h.layouts_eq hrest hfree.2, rfl⟩

end

end BracketTable.Extends

/-- A reader that learns more brackets reads a text as before, or fails as before at
the same place, unless one of them stands for itself in an atom of the text. A writer
that learns them writes a value as before unless one of them is in a symbol. -/
theorem parse_print_offerAll [Display] {t : BracketTable} (ht : t.Reachable) (more : List Bracket) :
    (∀ (o : ParseOptions) (source : String),
      (∀ c ∈ (scan (o.readtable t) source.toList).bare, t.gains (t.offerAll more) c = false) →
      parse (t.offerAll more) o source = parse t o source) ∧
    ∀ (o : PrintOptions) (v : Value) (text : String), Writer.print ⟨t, o⟩ v = .ok text →
      (∀ c ∈ v.symbolTexts o.textStyle, t.gains (t.offerAll more) c = false) →
      Writer.print ⟨t.offerAll more, o⟩ v = .ok text := by
  have h := ht.wellFormed.extends_offerAll more
  refine ⟨fun o source hfree => ?_, fun o v text hprint hfree => ?_⟩
  · have hscan := h.scan_eq o.comment source.toList hfree
    have htokens : tokenize (o.readtable (t.offerAll more)) source =
        tokenize (o.readtable t) source := congrArg Scan.located hscan
    rw [parse, parse, htokens]
  · obtain ⟨l, hl, rfl⟩ := Writer.print_eq_ok_iff.mp hprint
    exact Writer.print_eq_ok_iff.mpr ⟨l, h.layout_eq hl hfree, rfl⟩

/-- Angles in a string, in a comment and behind a backslash, and a list in which one
text holds an angle. -/
theorem parse_print_offerAll_angles :
    BracketTable.default.gains (BracketTable.default.offerAll [⟨'<', '>'⟩]) '<' = true ∧
    parse (BracketTable.default.offerAll [⟨'<', '>'⟩]) {} "(a\\< \">\" ; <" =
      parse .default {} "(a\\< \">\" ; <" ∧
    Writer.print ⟨BracketTable.default.offerAll [⟨'<', '>'⟩], {}⟩ (.list [.text "<", .symbol "a"]) =
      .ok "(\"<\" a)" := by
  obtain ⟨hparse, hprint⟩ := parse_print_offerAll (t := .default) ⟨[], rfl⟩ [⟨'<', '>'⟩]
  have hbare : (scan ⟨.default, ';'⟩ "(a\\< \">\" ; <".toList).bare = ['a'] := by decide +kernel
  have hsymbols : (Value.list [.text "<", .symbol "a"]).symbolTexts .string = ['a'] := rfl
  have hfree : ∀ c ∈ ['a'],
      BracketTable.default.gains (.offerAll .default [⟨'<', '>'⟩]) c = false :=
    List.forall_mem_singleton.mpr rfl
  exact ⟨rfl, hparse {} _ (hbare ▸ hfree), hprint {} _ _ rfl (hsymbols ▸ hfree)⟩

end SExpr
