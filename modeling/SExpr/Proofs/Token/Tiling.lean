import SExpr.Proofs.Parse.Image
import SExpr.Proofs.Token.Slice

/-! # Tokens and gaps take turns

The spans of the tokens come one after another in the source, none of them empty, and
the string that never ends comes last. What they leave out, before, between and behind
them, are gaps: nothing is lost. A token that is cut out of the source and read alone
is the same token, so nothing of its neighbours had a part in it. -/

namespace SExpr

variable {rt : Readtable}

/-- The place is between two characters of the source, or at one of its ends. -/
def Mark.IsBoundary (m : Mark) (source : String) : Prop :=
  (⟨m.bytes⟩ : String.Pos.Raw).IsValid source

/-- The span has at least one character, and so at least one byte. -/
def Span.Nonempty (s : Span) : Prop :=
  s.first.chars < s.last.chars ∧ s.first.bytes < s.last.bytes

/-- The span ends where the other one begins, or earlier. -/
def Span.Before (s s' : Span) : Prop :=
  s.last.chars ≤ s'.first.chars ∧ s.last.bytes ≤ s'.first.bytes

/-- What the spans leave out from `m` to `finish`. -/
def gapsBetween (m finish : Mark) : List Span → List Span
  | [] => [⟨m, finish⟩]
  | s :: rest => ⟨m, s.first⟩ :: gapsBetween s.last finish rest

/-- What is before, between and behind the tokens of the source. -/
def TokenStream.gaps (s : TokenStream) (source : String) : List Span :=
  gapsBetween .start (.behind source) s.spans

/-- A gap and a comment without a newline. -/
def EndsInComment (rt : Readtable) (text : List Char) : Prop :=
  ∃ gap line, IsGap rt gap ∧ isBlank rt.comment = false ∧ '\n' ∉ line ∧
    text = gap ++ rt.comment :: line

/-- How the tokens of a source account for all of its characters. -/
structure TokenStream.Tiles (rt : Readtable) (source : String) (s : TokenStream) : Prop where
  /-- By itself the slice of a token is this token and nothing else. -/
  slice_eq : ∀ t ∈ s.tokens, ∃ before slice after, t.span.Names source before slice after ∧
    tokenize rt slice = ⟨[⟨t.token, ⟨.start, .behind slice⟩⟩], none⟩
  atom_ne : ∀ t ∈ s.tokens, ∀ content escaped, t.token = .atom content escaped → content ≠ ""
  nonempty : ∀ place ∈ s.spans, place.Nonempty
  boundaries : ∀ place ∈ s.spans, place.first.IsBoundary source ∧ place.last.IsBoundary source
  ordered : s.spans.Pairwise Span.Before
  /-- Only at the end of the source a comment has no newline. -/
  gaps_eq : ∀ place ∈ s.gaps source, ∃ before gap after, place.Names source before gap after ∧
    (IsGap rt gap.toList ∨ EndsInComment rt gap.toList ∧ after = "")
  length_le : s.spans.length ≤ source.length

/-! ## Stretches of a text -/

namespace Span.Marks

variable {s : Span} {m : Mark} {text before slice after : List Char}

theorem le_first (h : s.Marks m text before slice after) :
    m.chars ≤ s.first.chars ∧ m.bytes ≤ s.first.bytes := by
  rw [h.span_eq]
  exact ⟨Nat.le_add_right _ _, Nat.le_add_right _ _⟩

theorem nonempty (h : s.Marks m text before slice after) (hne : slice ≠ []) : s.Nonempty := by
  obtain ⟨c, tail, rfl⟩ := List.exists_cons_of_ne_nil hne
  have hbytes : 0 < byteLength (c :: tail) := by
    have hc := c.utf8Size_pos
    simp only [byteLength, List.map_cons, List.sum_cons]
    omega
  rw [h.span_eq]
  exact ⟨Nat.lt_add_of_pos_right (Nat.succ_pos _), Nat.lt_add_of_pos_right hbytes⟩

end Span.Marks

/-- A mark behind a part of the source is at the end of its last character. -/
theorem Mark.isBoundary_behind (before after : String) :
    (Mark.behind before).IsBoundary (before ++ after) :=
  String.Pos.Raw.isValid_iff_exists_append.mpr ⟨before, after, rfl, rfl⟩

theorem Span.Names.isBoundary {s : Span} {source before slice after : String}
    (h : s.Names source before slice after) :
    s.first.IsBoundary source ∧ s.last.IsBoundary source := by
  rw [h.first_eq, h.last_eq, h.source_eq]
  refine ⟨?_, Mark.isBoundary_behind _ _⟩
  rw [String.append_assoc]
  exact Mark.isBoundary_behind _ _

/-! ## Tokens -/

theorem exists_marks_of_mem_spans {text : List Char} {m : Mark} {place : Span}
    (h : place ∈ ((scan rt text).locatedFrom m).spans) :
    ∃ before slice after, place.Marks m text before slice after ∧ slice ≠ [] := by
  rcases List.mem_append.mp h with htoken | hopen
  · obtain ⟨t, ht, rfl⟩ := List.mem_map.mp htoken
    obtain ⟨l, before, after, ⟨tail, hnext⟩, -, hmarks⟩ := exists_lexeme_of_mem ht
    exact ⟨before, l.raw, after, hmarks, Scan.raw_ne_nil hnext⟩
  · obtain ⟨before, body, hmarks⟩ := exists_of_openString (Option.mem_toList.mp hopen)
    exact ⟨before, _, [], hmarks, List.cons_ne_nil _ _⟩

/-- What a lexeme is written as is cut into its token. -/
theorem scan_raw {text rest : List Char} {l : Lexeme} (h : Scan.next rt text = .more l rest) :
    scan rt l.raw = ⟨[{ l with gap := [] }], .finished []⟩ := by
  have hnext : Scan.next rt (l.raw ++ []) = _ := next_raw h (fun _ => trivial) fun _ => rfl
  rw [List.append_nil] at hnext
  rw [scan_of_more hnext, scan_nil]

/-- The spans of a text with one lexeme more. -/
theorem spans_of_more {text rest : List Char} {l : Lexeme} (h : Scan.next rt text = .more l rest)
    (m : Mark) :
    ((scan rt text).locatedFrom m).spans =
      (l.located m).span :: ((scan rt rest).locatedFrom (l.located m).span.last).spans := by
  rw [locatedFrom_of_more h]
  rfl

theorem pairwise_spans (text : List Char) (m : Mark) :
    ((scan rt text).locatedFrom m).spans.Pairwise Span.Before := by
  induction text using scan.induct rt generalizing m with
  | case1 text ending h =>
    rw [scan_of_done h]
    cases ending with
    | finished gap => exact .nil
    | openString gap raw => exact List.pairwise_singleton _ _
  | case2 text l rest h _ ih =>
    rw [spans_of_more h]
    refine .cons (fun place hplace => ?_) (ih _)
    obtain ⟨before, slice, after, hmarks, -⟩ := exists_marks_of_mem_spans hplace
    exact hmarks.le_first

theorem length_spans_le (text : List Char) (m : Mark) :
    ((scan rt text).locatedFrom m).spans.length ≤ text.length := by
  induction text using scan.induct rt generalizing m with
  | case1 text ending h =>
    rw [scan_of_done h]
    cases ending with
    | finished gap => exact Nat.zero_le _
    | openString gap raw =>
      obtain ⟨-, rfl, body, rfl⟩ := isGap_of_openString h
      change 1 ≤ _
      rw [List.length_append, List.length_cons]
      omega
  | case2 text l rest h _ ih =>
    have hlt := Scan.length_lt_of_next h
    rw [spans_of_more h, List.length_cons]
    exact Nat.lt_of_le_of_lt (ih _) hlt

/-! ## Gaps -/

/-- Without the newline that completes it, a gap may end in a comment. -/
theorem isGap_or_endsInComment {gap : List Char} (h : IsGap rt (gap ++ ['\n'])) :
    IsGap rt gap ∨ EndsInComment rt gap := by
  generalize hwhole : gap ++ ['\n'] = whole at h
  induction h generalizing gap with
  | nil => simp at hwhole
  | @blank c rest hblank hrest ih =>
    cases gap with
    | nil => exact .inl .nil
    | cons d gap =>
      obtain ⟨rfl, hgap⟩ := List.cons.inj hwhole
      rcases ih hgap with hall | ⟨front, line, hfront, hcomment, hline, rfl⟩
      · exact .inl (.blank hblank hall)
      · exact .inr ⟨d :: front, line, .blank hblank hfront, hcomment, hline, rfl⟩
  | @comment line rest hcomment hline hrest ih =>
    cases gap with
    | nil =>
      rw [← (List.cons.inj hwhole).1] at hcomment
      contradiction
    | cons d gap =>
      obtain ⟨rfl, hgap⟩ := List.cons.inj hwhole
      rcases List.eq_nil_or_concat' rest with rfl | ⟨front, last, rfl⟩
      · -- the newline that was added is the one that ends the comment
        refine .inr ⟨[], line, .nil, hcomment, hline, ?_⟩
        rw [List.append_cancel_right hgap]
        rfl
      · rw [← List.cons_append, ← List.append_assoc] at hgap
        obtain ⟨rfl, hlast⟩ := List.append_inj' hgap rfl
        rcases ih (congrArg (front ++ ·) hlast) with hall | ⟨front', line', hfront, -, hline', rfl⟩
        · exact .inl (.comment hcomment hline hall)
        · refine .inr ⟨rt.comment :: (line ++ '\n' :: front'), line',
            .comment hcomment hline hfront, hcomment, hline', ?_⟩
          simp only [List.cons_append, List.append_assoc]

/-- What the tokens of a text leave out are gaps. -/
theorem exists_marks_of_mem_gaps (text : List Char) (m : Mark) :
    ∀ place ∈ gapsBetween m (m.advance text) ((scan rt text).locatedFrom m).spans,
      ∃ before gap after, place.Marks m text before gap after ∧
        (IsGap rt gap ∨ EndsInComment rt gap ∧ after = []) := by
  induction text using scan.induct rt generalizing m with
  | case1 text ending h =>
    rw [scan_of_done h]
    cases ending with
    | finished gap =>
      obtain ⟨hgap, rfl⟩ := isGap_of_finished h
      intro place hplace
      obtain rfl := List.mem_singleton.mp hplace
      refine ⟨[], text, [], ⟨(List.append_nil _).symm, rfl⟩, ?_⟩
      exact (isGap_or_endsInComment hgap).imp_right fun hend => ⟨hend, rfl⟩
    | openString gap raw =>
      obtain ⟨hgap, rfl, -⟩ := isGap_of_openString h
      intro place hplace
      rcases List.mem_pair.mp hplace with rfl | rfl
      · exact ⟨[], gap, raw, ⟨rfl, rfl⟩, .inl hgap⟩
      · refine ⟨gap ++ raw, [], [], ⟨by simp, ?_⟩, .inl .nil⟩
        simp only [Mark.advance_append, Mark.advance_nil]
  | case2 text l rest h _ ih =>
    obtain rfl := Scan.next_eq_append h
    rw [spans_of_more h]
    intro place hplace
    rcases List.mem_cons.mp hplace with rfl | hplace
    · exact ⟨[], l.gap, l.raw ++ rest, ⟨by simp, rfl⟩, .inl (next_cases h).1⟩
    · rw [l.last_located, Mark.advance_append m (l.gap ++ l.raw)] at hplace
      obtain ⟨before, gap, after, hmarks, hgap⟩ := ih _ place hplace
      exact ⟨l.gap ++ l.raw ++ before, gap, after, hmarks.behind, hgap⟩

/-! ## Sources -/

theorem tiles_tokenize (rt : Readtable) (source : String) :
    (tokenize rt source).Tiles rt source where
  slice_eq t ht := by
    obtain ⟨l, before, after, ⟨tail, hnext⟩, htoken, hmarks⟩ := exists_lexeme_of_mem ht
    refine ⟨_, _, _, hmarks.names, ?_⟩
    rw [tokenize, String.toList_ofList, scan_raw hnext, ← Mark.advance_start, htoken]
    rfl
  atom_ne t ht content escaped htoken := by
    obtain ⟨l, -, after, ⟨tail, hnext⟩, hsame, -⟩ := exists_lexeme_of_mem ht
    have hknown := Scan.isKnown_next hnext
    rw [← hsame, htoken] at hknown
    exact hknown
  nonempty place hplace := by
    obtain ⟨before, slice, after, hmarks, hne⟩ := exists_marks_of_mem_spans hplace
    exact hmarks.nonempty hne
  boundaries place hplace := by
    obtain ⟨before, slice, after, hmarks, -⟩ := exists_marks_of_mem_spans hplace
    exact hmarks.names.isBoundary
  ordered := pairwise_spans source.toList .start
  gaps_eq place hplace := by
    have hfinish : Mark.behind source = Mark.start.advance source.toList := by
      rw [Mark.advance_start, String.ofList_toList]
    rw [TokenStream.gaps, hfinish] at hplace
    obtain ⟨before, gap, after, hmarks, hgap⟩ := exists_marks_of_mem_gaps _ _ place hplace
    refine ⟨_, _, _, hmarks.names, ?_⟩
    rw [String.toList_ofList]
    exact hgap.imp_right fun hend => ⟨hend.1, by rw [hend.2]⟩
  length_le := length_spans_le source.toList .start

end SExpr
