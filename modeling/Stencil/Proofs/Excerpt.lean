import Stencil.Proofs.Body.Canonical
import Stencil.Proofs.Session

/-! # Spans taken out of their text

What a span is read as does not depend on what stands around it. The text of a span, read alone, has
this one span and no other, so it has the marker of the span at its start, or the fault of the span
as far behind its start.
-/

namespace Stencil

variable {d : Delimiters}

theorem Decomposition.isGap_body {start : Nat} {text : Text} {spans : List (Span d)}
    {open? : Option Nat} (h : Decomposition d start text spans open?) :
    ∀ span ∈ spans, d.closing.IsGap span.body := by
  induction h with
  | exhausted => simp
  | unterminated => simp
  | @span start gap body rest span spans open? _ hbody hspan _ ih =>
    intro other hother
    rcases List.mem_cons.1 hother with rfl | hother
    · rw [hspan]
      exact hbody
    · exact ih other hother

namespace Span

variable {span : Span d}

def alone (span : Span d) : Span d := { span with position := 0 }

/-- Behind the first closing delimiter nothing is left. -/
theorem decomposition_rawText (h : d.closing.IsGap span.body) :
    Decomposition d 0 span.rawText [span.alone] none := by
  have hrest : Decomposition d span.alone.stop [] [] none :=
    .exhausted (Text.not_occurs_nil d.opening_ne_nil)
  have hwhole := Decomposition.span (.nil d.opening) h rfl hrest
  simpa [rawText, alone] using hwhole

theorem result_markersOf_rawText (h : d.closing.IsGap span.body) :
    (markersOf d span.rawText).result = span.alone.marker.map ([·]) := by
  rw [(decomposition_rawText h).result_markersOf, List.mapM_cons, List.mapM_nil]
  cases span.alone.marker <;> rfl

theorem markersOf_rawText_of_ok {marker : Marker} (h : d.closing.IsGap span.body)
    (hmarker : span.marker = .ok marker) :
    (markersOf d marker.rawText).result = .ok [{ marker with position := 0 }] := by
  rw [(eq_of_marker_eq_ok hmarker).1, result_markersOf_rawText h]
  cases hbody : Body.parse span.body d.reserved with
  | error fault =>
    rw [marker_of_decode_error (decode_of_parse_error hbody)] at hmarker
    cases hmarker
  | ok body =>
    rw [marker_of_decode_ok (decode_of_parse_ok hbody)] at hmarker
    cases hmarker
    have halone := marker_of_decode_ok (@decode_of_parse_ok d span.alone body hbody)
    rw [halone]
    rfl

/-- The fault of a span is found as far behind the start of the span's own text. -/
theorem markersOf_rawText_of_error {rawText : Text} {position offset : Nat} {reason : Reason}
    (h : d.closing.IsGap span.body)
    (hfault : span.marker = .error (.malformed rawText position offset reason)) :
    position ≤ offset ∧
      (markersOf d rawText).result = .error (.malformed rawText 0 (offset - position) reason) := by
  cases hbody : Body.parse span.body d.reserved with
  | error fault =>
    rw [marker_of_decode_error (decode_of_parse_error hbody)] at hfault
    cases hfault
    have halone := marker_of_decode_error (@decode_of_parse_error d span.alone fault hbody)
    have hstart : span.bodyStart = span.position + span.alone.bodyStart := by
      simp [bodyStart, alone]
    have hoffset : span.bodyStart + fault.offset - span.position =
        span.alone.bodyStart + fault.offset := by omega
    refine ⟨by omega, ?_⟩
    rw [result_markersOf_rawText h, halone, hoffset]
    rfl
  | ok body =>
    rw [marker_of_decode_ok (decode_of_parse_ok hbody)] at hfault
    cases hfault

end Span

theorem Session.decode_cases {session : Session d} {passed ahead : List (Span d)}
    {open? : Option Nat} (h : session.scan.Stands passed ahead open?) :
    (∃ span : Span d, d.closing.IsGap span.body ∧
      (session.step .decode).result = span.marker.map fun marker => .marker (some marker)) ∨
    (session.step .decode).result = .ok (.marker none) ∨
    ∃ position, (session.step .decode).result = .error (.unterminated position d.closing) := by
  cases ahead with
  | cons span ahead =>
    have hnext := congrArg Outcome.result h.next_of_cons.1
    exact .inl ⟨span, h.whole.isGap_body span (by simp), (result_step_of_some hnext).2⟩
  | nil =>
    cases open? with
    | some position =>
      have hnext := congrArg Outcome.result h.next_of_open
      exact .inr (.inr ⟨position, (result_step_of_error hnext).2⟩)
    | none =>
      have hnext := congrArg Outcome.result h.next_of_nil.1
      exact .inr (.inl (result_step_of_none hnext).2)

/-- A marker that a session finds, wherever it has got to, is the one marker of its own text, and
stands at the start there. A body that the session cannot read is the fault of its own text, for the
same reason and at the same place of the span. -/
theorem markersOf_rawText_of_decode (d : Delimiters) (requests : List Request) :
    let session : Session d := Session.after {} requests
    (∀ marker, (session.step .decode).result = .ok (.marker (some marker)) →
      (markersOf d marker.rawText).result = .ok [{ marker with position := 0 }]) ∧
    ∀ rawText position offset reason,
      (session.step .decode).result = .error (.malformed rawText position offset reason) →
      position ≤ offset ∧
        (markersOf d rawText).result =
          .error (.malformed rawText 0 (offset - position) reason) := by
  intro session
  obtain ⟨passed, ahead, open?, hstands, -⟩ := (Session.isLeftBy_after d requests).scan
  rcases Session.decode_cases hstands with ⟨span, hgap, hspan⟩ | hnothing | ⟨place, hopen⟩
  · refine ⟨fun marker hmarker => ?_, fun rawText position offset reason hfault => ?_⟩
    · apply Span.markersOf_rawText_of_ok hgap
      rw [hspan] at hmarker
      cases hfound : span.marker <;> simp_all [Except.map]
    · apply Span.markersOf_rawText_of_error hgap
      rw [hspan] at hfault
      cases hfound : span.marker <;> simp_all [Except.map]
  · simp [session, hnothing]
  · simp [session, hopen]

/-- Each closing delimiter holds an opening one, behind a marker and behind a faulty body. -/
theorem markersOf_rawText_of_decode_brackets :
    ∃ d : Delimiters, d.opening = "[".toList ∧ d.closing = "[]".toList ∧
      (markersOf d "[a[]".toList).result = .ok [⟨⟨[['a']], []⟩, "[a[]".toList, 0, 4⟩] ∧
      (markersOf d "[.[]".toList).result =
        .error (.malformed "[.[]".toList 0 1 (.expected [.identifier])) := by
  let d : Delimiters := ⟨"[".toList, "[]".toList, by decide, by decide, by decide⟩
  let text : Text := " [a[] [.[]".toList
  have hbody : Body.IsCanonical d.reserved ⟨[['a']], []⟩ := by decide
  have hmarker : ((Session.after ({} : Session d) [.bind text]).step .decode).result =
      .ok (.marker (some ⟨⟨[['a']], []⟩, "[a[]".toList, 1, 4⟩)) := by
    have hnext : (Session.after ({} : Session d) [.bind text]).scan.next.result =
        .ok (some ⟨1, ['a']⟩) := rfl
    have hspan :=
      Span.marker_of_decode_ok (@Span.decode_of_parse_ok d ⟨1, ['a']⟩ _ hbody.parse_text)
    rw [(Session.result_step_of_some hnext).2, hspan]
    rfl
  have hfault : ((Session.after ({} : Session d) [.bind text, .next]).step .decode).result =
      .error (.malformed "[.[]".toList 6 7 (.expected [.identifier])) := by
    have hnext : (Session.after ({} : Session d) [.bind text, .next]).scan.next.result =
        .ok (some ⟨6, ['.']⟩) := rfl
    rw [(Session.result_step_of_some hnext).2]
    rfl
  refine ⟨d, rfl, rfl, (markersOf_rawText_of_decode d [.bind text]).1 _ hmarker, ?_⟩
  exact ((markersOf_rawText_of_decode d [.bind text, .next]).2 _ _ _ _ hfault).2

end Stencil
