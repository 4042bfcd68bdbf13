import Stencil.Proofs.Body.Containment
import Stencil.Proofs.Body.Meaning
import Stencil.Proofs.Scan.Place

/-! # Opening delimiters inside a body

A span whose closing delimiter was forgotten ends with that of a later one, and the opening
delimiter of the later one stands in its body. No character of it may stand in a name. If it has no
structural character and no layout either, it can stand in an argument alone, so the body is refused
unless an argument holds all of it.
-/

namespace Stencil

variable {d : Delimiters}

/-- The piece lies in one argument of the body that the text is read as, with the blanks around the
argument. -/
def LiesInArgument (text : Text) (piece : Piece) : Prop :=
  ∃ written, Grammar.read Grammar.body text = .ok written ∧
    ∃ call ∈ written.calls, ∃ argument ∈ call.arguments.toList,
      argument.LiesIn ⟨0, text⟩ ∧ piece.LiesIn argument

theorem IsFit.not_subset {reserved t : Text} {piece : Piece} (h : IsFit reserved t)
    (hpiece : piece.text ≠ []) (hreserved : piece.text ⊆ reserved) : ¬ piece.text ⊆ t := by
  intro hsubset
  rcases List.exists_mem_of_ne_nil _ hpiece with ⟨c, hc⟩
  exact h.1 c (hsubset hc) (hreserved hc)

theorem IsLayout.not_subset {t : Text} {piece : Piece} (h : IsLayout t) (hpiece : piece.text ≠ [])
    (hlayout : ∀ c ∈ piece.text, c ∉ [' ', '\t', '\r', '\n']) : ¬ piece.text ⊆ t := by
  intro hsubset
  rcases List.exists_mem_of_ne_nil _ hpiece with ⟨c, hc⟩
  exact hlayout c hc (h c (hsubset hc))

/-- Reserved characters stand in the arguments of a body that can be read, if they are neither
structural nor layout. -/
theorem liesInArgument_of_parse {text reserved : Text} {body : Body} {piece : Piece}
    (h : Body.parse text reserved = .ok body) (hpiece : piece.text ≠ [])
    (hreserved : piece.text ⊆ reserved)
    (hstructural : ∀ c ∈ piece.text, c ∉ ['.', ':', '(', ')', ','])
    (hlayout : ∀ c ∈ piece.text, c ∉ [' ', '\t', '\r', '\n'])
    (hlies : piece.LiesIn ⟨0, text⟩) : LiesInArgument text piece := by
  rcases parse_eq_ok_iff.1 h with ⟨s, rfl, hs, hmeaning, -⟩
  have hread := Grammar.read_body_eq_ok_iff.2 ⟨s, hs, rfl, rfl⟩
  have hpoint : ∀ c ∈ piece.text, c ∉ ['.', ':'] := by
    intro c hc
    have hforeign := hstructural c hc
    simp_all
  have hparenthesis : ∀ c ∈ piece.text, c ∉ ['(', ')', ','] := by
    intro c hc
    have hforeign := hstructural c hc
    simp_all
  rcases Spelling.cases_of_liesIn hpiece hpoint hlies with
    ⟨segment, hsegment, hin⟩ | ⟨stage, hstage, start, hcall, hwhole, hin⟩
  · have hname := text_mem_row hsegment
    rw [Spelling.place, row_place] at hname
    have hfit := hmeaning.path _ hname
    exact absurd hin.subset (hfit.not_subset hpiece hreserved)
  · rcases Stage.cases_of_liesIn hpiece hparenthesis hin with
      hname | ⟨argument, hargument, hpart, hin⟩ | htrailing
    · have hfit := (hmeaning.stages stage hstage).name
      exact absurd hname.subset (hfit.not_subset hpiece hreserved)
    · exact ⟨_, hread, _, hcall, argument, hargument, hpart.trans hwhole, hin⟩
    · have htail := (hs.stages stage hstage).trailing
      exact absurd htrailing (htail.not_subset hpiece hlayout)

/-- Of a span whose body can be read, whatever text it was found in, each opening delimiter in the
body lies in one argument. A span with one anywhere else is at fault. -/
theorem Scan.opening_liesInArgument
    (hopening : ∀ c ∈ d.opening, c ∉ ['.', ':', '(', ')', ','] ∧ c ∉ [' ', '\t', '\r', '\n'])
    {scan : Scan d} {span : Span d} (hspan : scan.next.result = .ok (some span)) :
    (∀ marker, scan.nextMarker.result = .ok (some marker) →
      ∀ place, Piece.LiesIn ⟨place, d.opening⟩ ⟨0, span.body⟩ →
        LiesInArgument span.body ⟨place, d.opening⟩) ∧
    ∀ place, Piece.LiesIn ⟨place, d.opening⟩ ⟨0, span.body⟩ →
      ¬ LiesInArgument span.body ⟨place, d.opening⟩ →
      ∃ offset reason, scan.nextMarker.result =
        .error (.malformed span.rawText span.position offset reason) := by
  have hresult := result_nextMarker_of_some hspan
  cases hbody : Body.parse span.body d.reserved with
  | error fault =>
    rw [Span.marker_of_decode_error (Span.decode_of_parse_error hbody)] at hresult
    constructor
    · intro marker hmarker
      rw [hresult] at hmarker
      cases hmarker
    · intro place _ _
      exact ⟨_, _, hresult⟩
  | ok body =>
    have hargument : ∀ place, Piece.LiesIn ⟨place, d.opening⟩ ⟨0, span.body⟩ →
        LiesInArgument span.body ⟨place, d.opening⟩ := by
      intro place hlies
      apply liesInArgument_of_parse hbody d.opening_ne_nil
      · exact List.subset_append_left d.opening d.closing
      · exact fun c hc => (hopening c hc).1
      · exact fun c hc => (hopening c hc).2
      · exact hlies
    constructor
    · exact fun _ _ => hargument
    · intro place hlies hnone
      exact absurd (hargument place hlies) hnone

/-- An opening delimiter in an argument is kept there. Behind a marker whose closing delimiter is
missing, the next one is refused together with it. -/
theorem Scan.opening_liesInArgument_forgotten :
    let text : Text := "[[a:f(x[[y)]] [[c [[b:g(z)]]".toList
    LiesInArgument "a:f(x[[y)".toList ⟨5, "[[".toList⟩ ∧
      ∃ offset reason, (Scan.nextMarker ({ text, cursor := 13 } : Scan .standard)).result =
        .error (.malformed "[[c [[b:g(z)]]".toList 14 offset reason) := by
  intro text
  have hopening : ∀ c ∈ Delimiters.standard.opening,
      c ∉ ['.', ':', '(', ')', ','] ∧ c ∉ [' ', '\t', '\r', '\n'] := by decide
  constructor
  · let s : Spelling := ⟨⟨['a'], []⟩, [⟨['f'], ⟨"x[[y".toList, []⟩, []⟩]⟩
    let span : Span .standard := ⟨0, s.text⟩
    have hspan : (Scan.next ({ text } : Scan .standard)).result = .ok (some span) := rfl
    have hbody : Body.parse span.body Delimiters.standard.reserved = .ok s.body :=
      parse_eq_ok_iff.2 ⟨s, rfl, by decide, by decide, rfl⟩
    have hmarker : (Scan.nextMarker ({ text } : Scan .standard)).result =
        .ok (some (span.markerOf s.body)) := by
      rw [result_nextMarker_of_some hspan, Span.marker_of_decode_ok (Span.decode_of_parse_ok hbody)]
      rfl
    exact (opening_liesInArgument hopening hspan).1 _ hmarker 5
      ⟨"a:f(x".toList, "y)".toList, rfl, rfl⟩
  · let s : Spelling := ⟨⟨"c [[b".toList, []⟩, [⟨['g'], ⟨['z'], []⟩, []⟩]⟩
    let span : Span .standard := ⟨14, s.text⟩
    have hspan : (Scan.next ({ text, cursor := 13 } : Scan .standard)).result =
        .ok (some span) := rfl
    apply (opening_liesInArgument hopening hspan).2 2 ⟨"c ".toList, "b:g(z)".toList, rfl, rfl⟩
    rintro ⟨written, hread, call, hcall, argument, hargument, -, hin⟩
    have hs := Grammar.read_body_eq_ok_iff.2 ⟨s, by decide, rfl, rfl⟩
    cases hs.symm.trans hread
    -- the only argument starts behind the delimiter
    have hbehind : ∀ call ∈ (s.place 0).calls, ∀ argument ∈ call.arguments.toList,
        ¬ argument.start ≤ 2 := by decide
    exact hbehind call hcall argument hargument hin.bounds.1

end Stencil
