import SExpr.Printer.Pretty

/-! # Writing documents

How the stack machine takes apart documents that were put together, and what it asks of
the line that it is on. Most commands are behind a group whose line may only end behind
them (`Trails`): then all that matters of the stack is a number of columns
(`Trails.fits_text_iff`), and not even that once the group is written
(`Trails.render_eq`). -/

namespace SExpr

namespace Doc

variable [Display] {width pos indent : Nat} {flat : Bool} {out : String}
variable {first second doc : Doc} {docs : List Doc} {rest : List Command}

/-! ## Documents that were put together

An empty document must not be left on the stack: the new line before it would take over
its indentation. -/

omit [Display] in
theorem ofText_empty : ofText "" = .nil := rfl

omit [Display] in
@[simp]
theorem ofText_toString (c : Char) : ofText c.toString = .text c.toString := by
  simp [ofText]

omit [Display] in
@[simp]
theorem cat_nil (doc : Doc) : doc.cat .nil = doc := by
  cases doc <;> rfl

omit [Display] in
theorem cat_of_ne_nil (hfirst : first ≠ .nil) (hsecond : second ≠ .nil) :
    first.cat second = .append first second := by
  cases first <;> cases second <;> first | rfl | contradiction

omit [Display] in
theorem text_cat_ne_nil (content : String) (doc : Doc) : (Doc.text content).cat doc ≠ .nil := by
  cases doc <;> exact Doc.noConfusion

/-- A document, unless there is nothing in it. -/
def present : Doc → List Doc
  | .nil => []
  | doc => [doc]

/-- Documents with a line before each. -/
def behindLines : List Doc → List Doc
  | [] => []
  | doc :: docs => .line :: (present doc ++ behindLines docs)

omit [Display] in
theorem present_of_ne_nil (h : doc ≠ .nil) : present doc = [doc] := by
  cases doc <;> first | rfl | contradiction

/-- The commands to write documents, all of them on one line or not. -/
def commands (indent : Nat) (flat : Bool) (docs : List Doc) : List Command :=
  docs.map (⟨indent, flat, ·⟩)

omit [Display] in
theorem intersperse_cons (separator first next : Doc) (docs : List Doc) :
    intersperse separator (first :: next :: docs) =
      intersperse separator ((first.cat separator).cat next :: docs) := rfl

theorem render_ofText (content : String) :
    render width out pos (⟨indent, flat, ofText content⟩ :: rest) =
      render width (out ++ content) (pos + Width.ofText content) rest := by
  by_cases h : content = ""
  · subst h
    rw [ofText_empty, Width.ofText_empty, String.append_empty, render, Nat.add_zero]
  · rw [ofText, if_neg (by simpa using h), render]

theorem render_cat (h : second ≠ .nil) :
    render width out pos (⟨indent, flat, first.cat second⟩ :: rest) =
      render width out pos (⟨indent, flat, first⟩ :: ⟨indent, flat, second⟩ :: rest) := by
  by_cases hfirst : first = .nil
  · subst hfirst
    rw [render]
    rfl
  · rw [cat_of_ne_nil hfirst h, render]

/-- Behind a text an empty document does no harm. -/
theorem render_text_cat (content : String) :
    render width out pos (⟨indent, flat, (Doc.text content).cat second⟩ :: rest) =
      render width (out ++ content) (pos + Width.ofText content)
        (⟨indent, flat, second⟩ :: rest) := by
  by_cases h : second = .nil
  · subst h
    rw [cat_nil, render, render]
  · rw [render_cat h, render]

theorem render_present (doc : Doc) (docs : List Doc) :
    render width out pos (commands indent flat (present doc ++ docs) ++ rest) =
      render width out pos (⟨indent, flat, doc⟩ :: (commands indent flat docs ++ rest)) := by
  by_cases h : doc = .nil
  · subst h
    rw [render]
    rfl
  · rw [present_of_ne_nil h]
    rfl

theorem render_intersperse (first : Doc) (docs : List Doc) :
    render width out pos (⟨indent, flat, intersperse .line (first :: docs)⟩ :: rest) =
      render width out pos
        (⟨indent, flat, first⟩ :: (commands indent flat (behindLines docs) ++ rest)) := by
  induction docs generalizing first with
  | nil => rfl
  | cons doc docs ih =>
    rw [intersperse_cons, ih, behindLines]
    by_cases hdoc : doc = .nil
    · subst hdoc
      rw [cat_nil, render_cat Doc.noConfusion]
      rfl
    · rw [render_cat hdoc, render_cat Doc.noConfusion, present_of_ne_nil hdoc]
      rfl

theorem render_group : render width out pos (⟨indent, flat, (doc.nested 1).grouped⟩ :: rest) =
    render width out pos (⟨indent + 1, flat || fits width true pos [doc] rest, doc⟩ :: rest) := by
  cases doc <;> simp only [nested, grouped, render, fits]

theorem render_bracketed (kind : Bracket) (items : List Doc) :
    render width out pos (⟨indent, flat, PrettyPrinter.bracketed kind items⟩ :: rest) =
      render width (out ++ kind.opener.toString) (pos + Width.ofText kind.opener.toString)
        (⟨indent, flat, ((intersperse .line items).nested 1).grouped⟩ ::
          ⟨indent, flat, .text kind.closer.toString⟩ :: rest) := by
  rw [PrettyPrinter.bracketed, ofText_toString, ofText_toString, render_cat Doc.noConfusion,
    render_text_cat]

/-! ## What fits -/

theorem fits_cat (h : second ≠ .nil) : fits width flat pos (first.cat second :: docs) rest =
    fits width flat pos (first :: second :: docs) rest := by
  by_cases hfirst : first = .nil
  · subst hfirst
    rw [fits]
    rfl
  · rw [cat_of_ne_nil hfirst h, fits]

theorem fits_text_cat (content : String) :
    fits width flat pos ((Doc.text content).cat second :: docs) rest =
      fits width flat pos (.text content :: second :: docs) rest := by
  by_cases h : second = .nil
  · subst h
    rw [cat_nil, fits, fits, fits]
  · exact fits_cat h

theorem fits_present (doc : Doc) : fits width flat pos (present doc ++ docs) rest =
    fits width flat pos (doc :: docs) rest := by
  by_cases h : doc = .nil
  · subst h
    rw [fits]
    rfl
  · rw [present_of_ne_nil h]
    rfl

theorem fits_intersperse (first : Doc) (items docs : List Doc) :
    fits width flat pos (intersperse .line (first :: items) :: docs) rest =
      fits width flat pos (first :: (behindLines items ++ docs)) rest := by
  induction items generalizing first with
  | nil => rfl
  | cons doc items ih =>
    rw [intersperse_cons, ih, behindLines]
    by_cases hdoc : doc = .nil
    · subst hdoc
      rw [cat_nil, fits_cat Doc.noConfusion]
      rfl
    · rw [fits_cat hdoc, fits_cat Doc.noConfusion, present_of_ne_nil hdoc]
      rfl

theorem fits_group : fits width flat pos ((doc.nested 1).grouped :: docs) rest =
    fits width flat pos (doc :: docs) rest := by
  cases doc <;> simp only [nested, grouped, fits]

theorem fits_bracketed (kind : Bracket) (items : List Doc) :
    fits width flat pos (PrettyPrinter.bracketed kind items :: docs) rest =
      fits width flat pos (.text kind.opener.toString :: intersperse .line items ::
        .text kind.closer.toString :: docs) rest := by
  rw [PrettyPrinter.bracketed, ofText_toString, ofText_toString, fits_cat Doc.noConfusion,
    fits_text_cat, fits, fits, fits_group]

/-- No line that is already too wide is taken to fit: before it may end, something is
written on it. -/
def Bounded (width : Nat) (flat : Bool) (docs : List Doc) (rest : List Command) : Prop :=
  ∀ pos, fits width flat pos docs rest = true → pos ≤ width

theorem bounded_text (content : String) (docs : List Doc) (rest : List Command) :
    Bounded width flat (.text content :: docs) rest := by
  intro pos h
  rw [fits, Bool.and_eq_true, decide_eq_true_eq] at h
  exact Nat.le_of_add_right_le h.1

theorem bounded_closer (content : String) (rest : List Command) :
    Bounded width flat [] (⟨indent, false, .text content⟩ :: rest) := by
  intro pos h
  rw [fits] at h
  exact bounded_text content [] rest pos h

theorem bounded_line (docs : List Doc) (rest : List Command) :
    Bounded width true (.line :: docs) rest := by
  intro pos h
  rw [fits, Bool.not_true, Bool.false_or, Bool.and_eq_true, decide_eq_true_eq] at h
  exact Nat.le_of_add_right_le h.1

/-- The columns of a text need no check where a check is still to come. -/
theorem Bounded.fits_text (h : Bounded width flat docs rest) (content : String) :
    fits width flat pos (.text content :: docs) rest =
      fits width flat (pos + Width.ofText content) docs rest := by
  rw [fits]
  cases hfits : fits width flat (pos + Width.ofText content) docs rest with
  | false => exact Bool.and_false _
  | true => rw [Bool.and_true, decide_eq_true (h _ hfits)]

theorem Bounded.fits_line (h : Bounded width true docs rest) :
    fits width true pos (.line :: docs) rest = fits width true (pos + 1) docs rest := by
  rw [fits, Bool.not_true, Bool.false_or]
  cases hfits : fits width true (pos + 1) docs rest with
  | false => exact Bool.and_false _
  | true => rw [Bool.and_true, decide_eq_true (h _ hfits)]

theorem Bounded.fits_ofText (h : Bounded width flat docs rest) (content : String) :
    fits width flat pos (ofText content :: docs) rest =
      fits width flat (pos + Width.ofText content) docs rest := by
  by_cases hcontent : content = ""
  · subst hcontent
    rw [ofText_empty, Width.ofText_empty, fits, Nat.add_zero]
  · rw [ofText, if_neg (by simpa using hcontent), h.fits_text]

/-! ## What is behind a layout -/

/-- The commands write texts of `trail` columns; then a line may end, or nothing is left. -/
inductive Trails : List Command → Nat → Prop
  | nil : Trails [] 0
  | line {indent : Nat} {rest : List Command} : Trails (⟨indent, false, .line⟩ :: rest) 0
  | text {indent trail : Nat} {content : String} {rest : List Command} :
      Trails rest trail →
      Trails (⟨indent, false, .text content⟩ :: rest) (Width.ofText content + trail)

theorem Trails.render_eq {trail : Nat} (h : Trails rest trail) (out : String) (pos pos' : Nat) :
    render width out pos rest = render width out pos' rest := by
  induction h generalizing out pos pos' with
  | nil => rw [render, render]
  | line => rw [render, render]
  | text _ ih =>
    rw [render, render]
    exact ih _ _ _

theorem Trails.fits_iff {trail : Nat} (h : Trails rest trail) (hpos : pos ≤ width) :
    fits width flat pos [] rest = true ↔ pos + trail ≤ width := by
  induction h generalizing flat pos with
  | nil => simpa [fits] using hpos
  | line => simpa [fits] using hpos
  | text _ ih =>
    rw [fits, fits, Bool.and_eq_true, decide_eq_true_eq, ← Nat.add_assoc]
    constructor
    · intro hfits
      exact (ih hfits.1).mp hfits.2
    · intro hle
      have hcontent := Nat.le_of_add_right_le hle
      exact ⟨hcontent, (ih hcontent).mpr hle⟩

/-- Behind a closer it does not matter how wide the line already was. -/
theorem Trails.fits_text_iff {trail : Nat} (h : Trails rest trail) (content : String) :
    fits width flat pos [] (⟨indent, false, .text content⟩ :: rest) = true ↔
      pos + (Width.ofText content + trail) ≤ width := by
  by_cases hpos : pos ≤ width
  · exact h.text.fits_iff hpos
  · constructor
    · intro hfits
      exact absurd (bounded_closer content rest pos hfits) hpos
    · intro hle
      exact absurd (Nat.le_of_add_right_le hle) hpos

end Doc
end SExpr
