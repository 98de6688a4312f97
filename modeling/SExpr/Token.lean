import SExpr.Text.Atom
import SExpr.Text.StringLiteral

/-! The tokens of a text.

A text is cut into lexemes, each a token behind the blanks and comments before
it, and nothing is lost: `next_eq_append` says that gap, token and remainder are
the text. The cut ends with the text or at a string that never ends. -/

namespace SExpr

inductive Token
  | opening (kind : Bracket)
  | closing (kind : Bracket)
  | apostrophe
  /-- A string, its escapes resolved. -/
  | string (content : String)
  /-- An atom, its escapes resolved, and whether it had any. -/
  | atom (content : String) (escaped : Bool)
deriving DecidableEq

structure Lexeme where
  /-- The blanks and comments before the token. -/
  gap : List Char
  raw : List Char
  token : Token
deriving DecidableEq

inductive Ending
  | finished (gap : List Char)
  | openString (gap raw : List Char)
deriving DecidableEq

structure Scan where
  lexemes : List Lexeme
  ending : Ending
deriving DecidableEq

namespace Scan

/-- The blanks and comments at the front of a text, and what follows them. A
comment runs through the next newline; `inComment` says that one has begun. -/
def splitGap (rt : Readtable) (inComment : Bool) : List Char → List Char × List Char
  | [] => ([], [])
  | c :: rest =>
    if inComment then
      let (gap, after) := splitGap rt (c != '\n') rest
      (c :: gap, after)
    else match rt.role c with
      | .blank =>
        let (gap, after) := splitGap rt false rest
        (c :: gap, after)
      | .comment =>
        let (gap, after) := splitGap rt true rest
        (c :: gap, after)
      | _ => ([], c :: rest)

theorem splitGap_append (rt : Readtable) (inComment : Bool) (text : List Char) :
    (splitGap rt inComment text).1 ++ (splitGap rt inComment text).2 = text := by
  fun_induction splitGap rt inComment text <;> simp_all

/-- A gap does not end before a blank or a comment. -/
theorem role_of_splitGap {rt : Readtable} {inComment : Bool} {text : List Char}
    {c : Char} {rest : List Char} (h : (splitGap rt inComment text).2 = c :: rest) :
    rt.role c ≠ .blank ∧ rt.role c ≠ .comment := by
  fun_induction splitGap rt inComment text <;> simp_all

inductive Step
  | done (ending : Ending)
  | more (lexeme : Lexeme) (rest : List Char)

/-- The first lexeme of a text, or how the text ends. -/
def next (rt : Readtable) (text : List Char) : Step :=
  let (gap, after) := splitGap rt false text
  match after with
  | [] => .done (.finished gap)
  | c :: rest =>
    match rt.role c with
    | .opening kind => .more ⟨gap, [c], .opening kind⟩ rest
    | .closing kind => .more ⟨gap, [c], .closing kind⟩ rest
    | .apostrophe => .more ⟨gap, [c], .apostrophe⟩ rest
    | .quote =>
      match StringLiteral.splitBody? rest with
      | some (body, rest') =>
        .more ⟨gap, c :: (body ++ ['"']), .string (.ofList (StringLiteral.decode body))⟩ rest'
      | none => .done (.openString gap (c :: rest))
    | _ =>
      let (raw, rest') := Atom.split rt (c :: rest)
      .more ⟨gap, raw, .atom (.ofList (Atom.decode raw)) (Atom.isEscaped raw)⟩ rest'

/-- Gap, token and remainder are the whole text. -/
theorem next_eq_append {rt : Readtable} {text rest : List Char} {l : Lexeme}
    (h : next rt text = .more l rest) : text = l.gap ++ l.raw ++ rest := by
  have hg := splitGap_append rt false text
  simp only [next] at h
  split at h
  · contradiction
  · rename_i c rest₀ hafter
    rw [hafter] at hg
    split at h
    any_goals
      simp only [Step.more.injEq] at h
      obtain ⟨rfl, rfl⟩ := h
      simpa using hg.symm
    · split at h
      · rename_i hbody
        simp only [Step.more.injEq] at h
        obtain ⟨rfl, rfl⟩ := h
        refine hg.symm.trans ?_
        simp [StringLiteral.eq_of_splitBody? hbody]
      · contradiction
    · simp only [Step.more.injEq] at h
      obtain ⟨rfl, rfl⟩ := h
      refine hg.symm.trans ?_
      rw [List.append_assoc, Atom.split_append]

/-- A token is never empty, so a reader always gets on. -/
theorem raw_ne_nil {rt : Readtable} {text rest : List Char} {l : Lexeme}
    (h : next rt text = .more l rest) : l.raw ≠ [] := by
  simp only [next] at h
  split at h
  · contradiction
  · rename_i c rest₀ hafter
    have hrole := role_of_splitGap hafter
    split at h
    any_goals
      simp only [Step.more.injEq] at h
      obtain ⟨rfl, rfl⟩ := h
      exact List.cons_ne_nil _ _
    · split at h
      · simp only [Step.more.injEq] at h
        obtain ⟨rfl, rfl⟩ := h
        exact List.cons_ne_nil _ _
      · contradiction
    · simp only [Step.more.injEq] at h
      obtain ⟨rfl, rfl⟩ := h
      apply Atom.split_ne_nil
      cases hc : rt.role c <;> simp_all [Readtable.endsAtom]

theorem length_lt_of_next {rt : Readtable} {text rest : List Char} {l : Lexeme}
    (h : next rt text = .more l rest) : rest.length < text.length := by
  have := List.length_pos_iff.mpr (raw_ne_nil h)
  rw [next_eq_append h, List.length_append, List.length_append]
  omega

end Scan

def scan (rt : Readtable) (text : List Char) : Scan :=
  match h : Scan.next rt text with
  | .done ending => ⟨[], ending⟩
  | .more lexeme rest =>
    have := Scan.length_lt_of_next h
    let s := scan rt rest
    ⟨lexeme :: s.lexemes, s.ending⟩
termination_by text.length

end SExpr
