import SExpr.Proofs.Layout.Written
import SExpr.Proofs.Token.Spelling

/-! # The tokens of a written layout

`Lexes` gives a layout the tokens of its atoms, apostrophes and brackets in order.
A text that the layout is written as spells exactly these: a bracket ends the atom
before it, and so does the blank of a separator. -/

namespace SExpr.Layout

mutual

/-- The tokens of a layout, an atom having those that its text spells. -/
inductive Lexes (rt : Readtable) : Layout → List Token → Prop
  | atom {content : String} {ts : List Token} :
      Spells rt content.toList ts → Lexes rt (.atom content) ts
  | quoted {inner : Layout} {ts : List Token} :
      Lexes rt inner ts → Lexes rt (.quoted inner) (.apostrophe :: ts)
  | sequence {kind : Bracket} {items : List Layout} {ts : List Token} :
      kind ∈ rt.brackets.kinds → LexesAll rt items ts →
      Lexes rt (.sequence kind items) (.opening kind :: (ts ++ [.closing kind]))

/-- The tokens of all items, in order. -/
inductive LexesAll (rt : Readtable) : List Layout → List Token → Prop
  | nil : LexesAll rt [] []
  | cons {item : Layout} {rest : List Layout} {ts us : List Token} :
      Lexes rt item ts → LexesAll rt rest us → LexesAll rt (item :: rest) (ts ++ us)

end

variable {rt : Readtable}

theorem IsSeparator.isBlank {gap : List Char} (h : IsSeparator gap) :
    ∀ c ∈ gap, isBlank c = true := by
  intro c hc
  rcases h with rfl | ⟨indent, rfl⟩
  · rw [List.mem_singleton.mp hc]
    rfl
  · rcases List.mem_cons.mp hc with rfl | hc
    · rfl
    · rw [List.eq_of_mem_replicate hc]
      rfl

/-- An atom is over at a separator. -/
theorem IsSeparator.stops {gap : List Char} (h : IsSeparator gap) (rest : List Char) :
    Atom.Stops rt (gap ++ rest) := by
  obtain ⟨c, tail, rfl⟩ : ∃ c tail, gap = c :: tail := by
    rcases h with rfl | ⟨indent, rfl⟩ <;> exact ⟨_, _, rfl⟩
  have hblank := h.isBlank c (by simp)
  refine ⟨Readtable.endsAtom_of_role (Readtable.role_blank hblank) Role.noConfusion, ?_⟩
  intro he
  rw [he] at hblank
  contradiction

/-- Two pieces with a separator between them. -/
theorem spells_separated {text gap others : List Char} {ts us : List Token}
    (h : Spells rt text ts) (hgap : IsSeparator gap) (h' : Spells rt others us) :
    Spells rt (text ++ gap ++ others) (ts ++ us) := by
  intro rest later hstop hcuts
  have hothers := (h' rest later hstop hcuts).blanks hgap.isBlank
  have htext := h _ _ (hgap.stops _) hothers
  simpa using htext

/-- The items of a sequence with its closer, which ends the last of them. -/
theorem spells_enclosed (hrt : rt.WellFormed) {kind : Bracket} (hkind : kind ∈ rt.brackets.kinds)
    {text : List Char} {ts : List Token} (h : Spells rt text ts) :
    Spells rt (kind.opener :: (text ++ [kind.closer]))
      (.opening kind :: (ts ++ [.closing kind])) := by
  have hopener := Readtable.role_opener hrt.brackets hkind (hrt.ne_comment hkind (by simp))
  have hcloser := Readtable.role_closer hrt.brackets hkind (hrt.ne_comment hkind (by simp))
  intro rest us _ hrest
  have hends : Atom.Stops rt (kind.closer :: rest) := by
    refine ⟨Readtable.endsAtom_of_role hcloser Role.noConfusion, fun hescape => ?_⟩
    have hfree := hrt.brackets.not_reserved kind hkind kind.closer (by simp)
    rw [hescape] at hfree
    contradiction
  have hitems := h (kind.closer :: rest) (.closing kind :: us) hends (hrest.closing hcloser)
  simpa using hitems.opening hopener

mutual

/-- A written layout spells the tokens of the layout. -/
theorem Lexes.spells (hrt : rt.WellFormed) {l : Layout} {ts : List Token} {text : List Char}
    (h : Lexes rt l ts) (hw : Written l text) : Spells rt text ts := by
  cases h with
  | atom hatom =>
    cases hw
    exact hatom
  | quoted hinner =>
    cases hw with
    | quoted hw =>
      have hrole := Readtable.role_apostrophe hrt.brackets hrt.apostrophe_ne
      exact fun rest us hstop hrest => (hinner.spells hrt hw rest us hstop hrest).apostrophe hrole
  | sequence hkind hitems =>
    cases hw with
    | sequence hw => exact spells_enclosed hrt hkind (hitems.spells hrt hw)
termination_by sizeOf l

theorem LexesAll.spells (hrt : rt.WellFormed) {items : List Layout} {ts : List Token}
    {text : List Char} (h : LexesAll rt items ts) (hw : WrittenAll items text) :
    Spells rt text ts := by
  cases h with
  | nil =>
    cases hw
    exact fun _ _ _ hrest => hrest
  | cons hitem hrest =>
    cases hw with
    | single hw =>
      cases hrest
      rw [List.append_nil]
      exact hitem.spells hrt hw
    | cons hw hgap hws =>
      exact spells_separated (hitem.spells hrt hw) hgap (hrest.spells hrt hws)
termination_by sizeOf items

end

end SExpr.Layout
