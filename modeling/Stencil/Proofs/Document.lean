import Stencil.Proofs.Body.Canonical
import Stencil.Proofs.Text.Gap
import Stencil.Proofs.Scan.Layout
import Stencil.Proofs.Scan.Markers

/-! # Written documents

A document of gaps and canonical bodies, and the markers that are read back from it. No delimiter
may come about by accident: not inside a gap or an argument, and not where two pieces meet. Writing
a canonical body down makes no mark that its arguments do not hold.
-/

namespace Stencil

/-- No character of the mark separates pieces, and none is blank. -/
def Text.IsPlain (mark : Text) : Prop :=
  ∀ c ∈ mark, c ∉ ['.', ':', '(', ')', ','] ∧ isBlank c = false

instance Text.decidableIsPlain (mark : Text) : Decidable mark.IsPlain :=
  inferInstanceAs (Decidable (∀ _ ∈ _, _))

namespace Row

theorem mem_text {row : Row} {separator c : Char} (h : c ∈ row.text separator) :
    c = separator ∨ ∃ t ∈ row.toList, c ∈ t := by
  simp only [text, List.mem_append, List.mem_flatMap, List.mem_cons] at h
  rcases h with hc | ⟨t, ht, hc | hc⟩
  · exact .inr ⟨row.first, by simp [toList], hc⟩
  · exact .inl hc
  · exact .inr ⟨t, by simp [toList, ht], hc⟩

theorem isGap_text_append {mark : Text} {row : Row} {separator c : Char} {rest : Text}
    (hrest : mark.IsGap rest) (hrow : ∀ t ∈ row.toList, ¬ mark.Occurs t)
    (hseparator : separator ∉ mark) (hc : c ∉ mark) :
    mark.IsGap (row.text separator ++ c :: rest) := by
  rcases row with ⟨first, others⟩
  induction others generalizing first with
  | nil =>
    have hbehind := hrest.behind (hrow first (by simp [toList])) hc
    simpa [text] using hbehind
  | cons t others ih =>
    have hlater := ih t fun t' ht' => hrow t' (List.mem_cons_of_mem first ht')
    have hbehind := hlater.behind (hrow first (by simp [toList])) hseparator
    simpa [text] using hbehind

end Row

section Mark

variable {mark reserved : Text} (hmark : mark ≠ []) (hplain : mark.IsPlain)
  (hreserved : ∀ c ∈ mark, c ∈ reserved)

include hplain in
theorem not_mem_of_structural {c : Char} (hc : c ∈ ['.', ':', '(', ')', ',']) : c ∉ mark :=
  fun hmem => (hplain c hmem).1 hc

include hmark hplain hreserved

theorem Call.IsCanonical.isGap_display_append {call : Call} (h : call.IsCanonical reserved)
    (harguments : ∀ t ∈ call.arguments, ¬ mark.Occurs t) {rest : Text} (hrest : mark.IsGap rest) :
    mark.IsGap (':' :: call.display ++ rest) := by
  have hspace : ' ' ∉ mark := fun hmem => absurd (hplain ' ' hmem).2 (by decide)
  have hpieces : ∀ t ∈ call.stage.arguments.toList, ¬ mark.Occurs t := by
    apply Row.forall_mem_ofList
    · exact fun _ => Text.not_occurs_nil hmark
    · exact harguments
    · intro t ht hoccurs
      exact harguments t ht (hoccurs.of_cons hmark hspace)
  have hbehind : mark.IsGap (call.stage.arguments.text ',' ++ ')' :: rest) :=
    Row.isGap_text_append hrest hpieces (not_mem_of_structural hplain (by decide))
      (not_mem_of_structural hplain (by decide))
  have hname : ∀ c ∈ ':' :: call.name ++ ['('], c ∉ mark := by
    intro c hc
    simp only [List.mem_append, List.mem_cons, List.not_mem_nil, or_false] at hc
    rcases hc with (rfl | hc) | rfl
    · exact not_mem_of_structural hplain (by decide)
    · exact fun hmem => h.name.2.2 c hc (hreserved c hmem)
    · exact not_mem_of_structural hplain (by decide)
  have hgap := hbehind.behind_disjoint hmark hname
  rw [← Call.text_stage]
  simpa [Stage.text, Call.stage] using hgap

theorem isGap_pipeline {pipeline : List Call}
    (hpipeline : ∀ call ∈ pipeline, call.IsCanonical reserved)
    (harguments : ∀ call ∈ pipeline, ∀ t ∈ call.arguments, ¬ mark.Occurs t) :
    mark.IsGap (pipeline.flatMap fun call => ':' :: call.display) := by
  induction pipeline with
  | nil => exact .nil mark
  | cons call pipeline ih =>
    have hrest := ih (fun call' h => hpipeline call' (List.mem_cons_of_mem call h))
      fun call' h => harguments call' (List.mem_cons_of_mem call h)
    exact (hpipeline call (by simp)).isGap_display_append hmark hplain hreserved
      (harguments call (by simp)) hrest

/-- A mark behind a body is the first one from the start of the body on. -/
theorem Body.IsCanonical.isGap_text {body : Body} (h : body.IsCanonical reserved)
    (harguments : ∀ call ∈ body.pipeline, ∀ t ∈ call.arguments, ¬ mark.Occurs t) :
    mark.IsGap body.text := by
  have hpath : ∀ c ∈ body.spelling.path.text '.', c ∉ mark := by
    intro c hc hmem
    rcases Row.mem_text hc with rfl | ⟨t, ht, hc⟩
    · exact not_mem_of_structural hplain (by decide) hmem
    · have hunreserved := h.forall_mem_path (fun t ht => (h.path t ht).2.2) t ht
      exact hunreserved c hc (hreserved c hmem)
  have hgap :=
    (isGap_pipeline hmark hplain hreserved h.pipeline harguments).behind_disjoint hmark hpath
  rw [Body.spelling, Row.text_ofList] at hgap
  exact hgap

end Mark

variable {d : Delimiters}

/-- A gap, and what the marker behind it is to say. -/
structure Passage where
  gap : Text
  body : Body
deriving DecidableEq, Repr

namespace Passage

def inscription (d : Delimiters) (passage : Passage) : Text :=
  d.opening ++ passage.body.text ++ d.closing

def cell (passage : Passage) : Cell := ⟨passage.gap, passage.body.text⟩

end Passage

def document (d : Delimiters) (passages : List Passage) (tail : Text) : Text :=
  (passages.flatMap fun passage => passage.gap ++ passage.inscription d) ++ tail

/-- The first opening delimiter is the one behind the gap, and the arguments hold no closing one. -/
structure Passage.IsReadable (d : Delimiters) (passage : Passage) : Prop where
  gap : d.opening.IsGap passage.gap
  body : passage.body.IsCanonical d.reserved
  arguments : ∀ call ∈ passage.body.pipeline, ∀ t ∈ call.arguments, ¬ d.closing.Occurs t

instance (d : Delimiters) (passage : Passage) : Decidable (passage.IsReadable d) :=
  decidable_of_iff (_ ∧ _ ∧ _)
    ⟨fun ⟨h, h', h''⟩ => ⟨h, h', h''⟩, fun ⟨h, h', h''⟩ => ⟨h, h', h''⟩⟩

theorem Passage.IsReadable.isLeftmost_cell {passage : Passage} (h : passage.IsReadable d)
    (hclosing : d.closing.IsPlain) : passage.cell.IsLeftmost d := by
  refine ⟨h.gap, ?_⟩
  apply h.body.isGap_text d.closing_ne_nil hclosing _ h.arguments
  intro c hc
  exact List.mem_append_right d.opening hc

def layoutOf (passages : List Passage) (tail : Text) : Layout := ⟨passages.map Passage.cell, tail⟩

theorem text_layoutOf (passages : List Passage) (tail : Text) :
    (layoutOf passages tail).text d = document d passages tail := by
  simp [document, layoutOf, Layout.text, written, List.flatMap_map, Passage.cell,
    Passage.inscription]

theorem spans_layoutOf (passages : List Passage) (tail : Text) :
    (layoutOf passages tail).spans d = passages.mapIdx fun i passage =>
      ⟨(document d (passages.take i) passage.gap).width, passage.body.text⟩ := by
  apply List.ext_getElem
  · simp [Layout.spans, layoutOf]
  · intro i hi hi'
    simp only [Layout.spans, List.getElem_mapIdx, ← text_layoutOf, layoutOf, Layout.text]
    simp [Passage.cell]

theorem isLeftmost_layoutOf {passages : List Passage} {tail : Text} (hclosing : d.closing.IsPlain)
    (hpassages : ∀ passage ∈ passages, passage.IsReadable d) (htail : ¬ d.opening.Occurs tail) :
    (layoutOf passages tail).IsLeftmost d := by
  refine ⟨List.forall_mem_map.2 fun passage hpassage => ?_, .inl htail⟩
  exact (hpassages passage hpassage).isLeftmost_cell hclosing

def inscribed (d : Delimiters) (passages : List Passage) : List Marker :=
  passages.mapIdx fun i passage => { passage.body with
    rawText := passage.inscription d
    position := (document d (passages.take i) passage.gap).width
    length := (passage.inscription d).width }

theorem map_parse_spans {passages : List Passage} (tail : Text)
    (hpassages : ∀ passage ∈ passages, passage.IsReadable d) :
    (((layoutOf passages tail).spans d).map fun s => Body.parse s.body d.reserved) =
      (passages.map Passage.body).map .ok := by
  rw [spans_layoutOf]
  apply List.ext_getElem
  · simp
  · intro i hi hi'
    have hlength : i < passages.length := by simpa using hi
    have hpassage := hpassages passages[i] (List.getElem_mem hlength)
    simpa using hpassage.body.parse_text

theorem zipWith_markerOf_spans (passages : List Passage) (tail : Text) :
    ((layoutOf passages tail).spans d).zipWith Span.markerOf (passages.map Passage.body) =
      inscribed d passages := by
  rw [spans_layoutOf]
  apply List.ext_getElem
  · simp [inscribed]
  · intro i hi hi'
    simp [inscribed, Span.markerOf, Span.rawText, Span.length, Passage.inscription]

/-- A document is read back as the markers that were written into it. -/
theorem markersOf_document {passages : List Passage} {tail : Text}
    (hclosing : d.closing.IsPlain) (hpassages : ∀ passage ∈ passages, passage.IsReadable d)
    (htail : ¬ d.opening.Occurs tail) :
    (markersOf d (document d passages tail)).result = .ok (inscribed d passages) := by
  rcases (isLeftmost_layoutOf hclosing hpassages htail).spansOf_eq with ⟨hspans, hend⟩
  have hopen : (layoutOf passages tail).open? d = none := by
    rw [Layout.open?, layoutOf, Text.around?_eq_none_iff.2 htail, Option.map_none]
  have hbodies := map_parse_spans tail hpassages
  rw [← hspans] at hbodies
  rw [hopen] at hend
  rw [← text_layoutOf, markersOf_of_parse hbodies hend, hspans, zipWith_markerOf_spans]

/-- An opening delimiter in an argument, and single brackets wherever they do no harm. -/
theorem markersOf_document_brackets :
    (markersOf .standard "[x[[a.b:f([[y, z.]):u()]][[c]][]]".toList).result = .ok [
      ⟨⟨[['a'], ['b']], [⟨['f'], ["[[y".toList, "z.]".toList]⟩, ⟨['u'], []⟩]⟩,
        "[[a.b:f([[y, z.]):u()]]".toList, 2, 23⟩,
      ⟨⟨[['c']], []⟩, "[[c]]".toList, 25, 5⟩] := by
  let passages : List Passage := [
    ⟨"[x".toList, ⟨[['a'], ['b']], [⟨['f'], ["[[y".toList, "z.]".toList]⟩, ⟨['u'], []⟩]⟩⟩,
    ⟨[], ⟨[['c']], []⟩⟩]
  have hreadable : ∀ passage ∈ passages, passage.IsReadable .standard := by decide
  have htail : ¬ Text.Occurs Delimiters.standard.opening "[]]".toList := by decide
  exact markersOf_document (by decide) hreadable htail

end Stencil
