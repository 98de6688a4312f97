import SExpr.Proofs.Print.Reread
import SExpr.Proofs.RoundTrip

/-! # Values on lines of their own

Printed values, one after another with a new line between neighbours, are read as
their `reread` one after another: a line ends whatever atom the text before it ends
with. Nothing but a bracket among the numbers stands against it. -/

namespace SExpr.Writer

variable {w : Writer} {p : ParseOptions} {values : List Value} {printed : List String}

theorem mapM_print_eq_ok_iff [Display] : values.mapM w.print = .ok printed ↔
    ∃ ls, Value.layouts w values = .ok ls ∧ printed = ls.map w.render := by
  induction values generalizing printed with
  | nil => simp [Value.layouts, pure_eq_ok_iff]
  | cons v rest ih =>
    simp only [List.mapM_cons, bind_eq_ok_iff, pure_eq_ok_iff, print_eq_ok_iff,
      Value.layouts_cons_eq_ok_iff, ih]
    constructor
    · intro h
      obtain ⟨_, ⟨l, hl, rfl⟩, _, ⟨ls, hls, rfl⟩, rfl⟩ := h
      exact ⟨l :: ls, ⟨l, hl, ls, hls, rfl⟩, rfl⟩
    · intro h
      obtain ⟨_, ⟨l, hl, ls, hls, rfl⟩, rfl⟩ := h
      exact ⟨w.render l, ⟨l, hl, rfl⟩, ls.map w.render, ⟨ls, hls, rfl⟩, rfl⟩

theorem writtenAll_lines [Display] (w : Writer) (ls : List Layout) :
    Layout.WrittenAll ls ("\n".intercalate (ls.map w.render)).toList := by
  induction ls with
  | nil => exact .nil
  | cons l rest ih =>
    cases rest with
    | nil =>
      rw [List.map_singleton, String.intercalate_singleton]
      exact .single (w.written_render l)
    | cons next rest =>
      simp only [List.map_cons, String.intercalate_cons_cons, String.toList_append] at ih ⊢
      exact .cons (w.written_render l) (.inr ⟨0, rfl⟩) ih

/-- Values without faults are printed, one to a line, and then a bracket among their
numbers is all that keeps them from being read. -/
theorem exists_lines [Display] (hm : w.MeantFor p)
    (hparts : ∀ u ∈ Value.partsAll values, w.Returns p u)
    (hdepth : Value.nestingAll values ≤ p.maxDepth) :
    ∃ printed, values.mapM w.print = .ok printed ∧
      (w.brackets.Spares (Value.numeralsAll values) →
        parse w.brackets p ("\n".intercalate printed) = .ok (Value.rereadAll p values)) ∧
      (parse w.brackets p ("\n".intercalate printed) = .ok values →
        w.brackets.Spares (Value.numeralsAll values)) := by
  have hfault : failure? (Value.layouts w values) = none := by
    rw [Value.failure?_layouts, List.findSome?_eq_none_iff]
    exact fun u hu => (hparts u hu).fault?_eq_none hm
  obtain ⟨ls, hls⟩ := failure?_eq_none_iff.mp hfault
  obtain ⟨ts, hts⟩ := exists_allReadAs_reread hm values hparts hls
  have htokens : Tokenizes (p.readtable w.brackets) ("\n".intercalate (ls.map w.render)) ts := by
    rw [ParseOptions.readtable, hm.parseComment, ← hm.printComment]
    exact .of_cuts (hts.lexes.spells hm.readtable (w.writtenAll_lines ls)).cuts
  refine ⟨_, mapM_print_eq_ok_iff.mpr ⟨ls, hls, rfl⟩, fun hfree => ?_, fun h => ?_⟩
  · obtain ⟨ds, hds, hvalues⟩ := hts.derives hfree p.maxDepth 0 (by omega)
    rw [parse_complete htokens hds, hvalues]
  · obtain ⟨named, hread, -⟩ := p.bracketCount_of_parse htokens h
    have hprinted := hts.count
    -- a bracket that is no opener or closer of a value would be one too many
    exact BracketTable.spares_iff.mpr (by omega)

end SExpr.Writer
