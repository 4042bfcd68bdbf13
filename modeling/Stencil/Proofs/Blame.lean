import Stencil.Proofs.Body.Viable
import Stencil.Proofs.Session

/-! # The place to blame

The fault of a span names the span as it stands in the text and a place between its delimiters. What
stands between the opening delimiter and this place is the beginning of a body, so nothing in front
of the place is at fault.
-/

namespace Stencil

variable {d : Delimiters}

namespace Session

variable {session : Session d} {rawText : Text} {position offset : Nat} {reason : Reason}

theorem exists_span_of_malformed
    (h : (session.step .decode).result = .error (.malformed rawText position offset reason)) :
    ∃ (span : Span d) (before after : Text) (fault : BodyFault),
      session.scan.text = before ++ span.rawText ++ after ∧ before.width = position ∧
        Body.parse span.body d.reserved = .error fault ∧ rawText = span.rawText ∧
        offset = position + d.opening.width + fault.offset := by
  rcases hnext : session.scan.next with ⟨result, next, events⟩
  rcases result with fault | found
  · have hresult := congrArg Outcome.result hnext
    rw [(result_step_of_error hresult).2] at h
    obtain ⟨place, rfl⟩ := Scan.exists_of_next_eq_error hresult
    cases h
  · rcases found with _ | span
    · rw [(result_step_of_none (congrArg Outcome.result hnext)).2] at h
      cases h
    · obtain ⟨done, gap, after, htext, hdone, hposition, -⟩ := Scan.next_eq_some hnext
      rw [(result_step_of_some (congrArg Outcome.result hnext)).2] at h
      cases hmarker : span.marker with
      | ok marker =>
        rw [hmarker] at h
        cases h
      | error fault =>
        rw [hmarker] at h
        obtain ⟨found, hdecode, rfl⟩ := Span.exists_of_marker_eq_error hmarker
        cases h
        refine ⟨span, done ++ gap, after, found, htext, ?_, Span.exists_of_decode_eq_error hdecode,
          rfl, rfl⟩
        rw [Text.width_append, hdone, hposition]

/-- Whatever state a session is in, a body that it cannot read stands in its text where the fault
says, and the place to blame is a boundary between the two delimiters. What stands in front of this
place begins a body. It begins one that can be read, if the grammar accepts the whole body and any
character is plain. -/
theorem decode_blames_viable_place
    (h : (session.step .decode).result = .error (.malformed rawText position offset reason)) :
    let text := session.scan.text
    text.slice? position (position + rawText.width) = some rawText ∧
    position + d.opening.width ≤ offset ∧
    offset + d.closing.width ≤ position + rawText.width ∧
    text.IsBoundary offset ∧
    ∃ read rest : Text, rawText = d.opening ++ (read ++ rest) ++ d.closing ∧
      text.slice? (position + d.opening.width) offset = some read ∧
      (∃ more written, Grammar.read Grammar.body (read ++ more) = .ok written) ∧
      ((∃ written, Grammar.read Grammar.body (read ++ rest) = .ok written) →
        (∃ c, IsPlain d.reserved c) →
        ∃ more found, Body.parse (read ++ more) d.reserved = .ok found) := by
  intro text
  obtain ⟨span, before, after, fault, htext, hplace, hparse, rfl, rfl⟩ := exists_span_of_malformed h
  obtain ⟨read, rest, hbody, hoffset, hviable⟩ := exists_read_of_parse_eq_error hparse
  rw [hbody] at hviable
  have hraw : span.rawText = d.opening ++ (read ++ rest) ++ d.closing := by
    rw [Span.rawText, hbody]
  have hread : text = (before ++ d.opening) ++ read ++ (rest ++ d.closing ++ after) := by
    simp [text, htext, hraw]
  have hwidth : (before ++ d.opening).width = position + d.opening.width := by
    rw [Text.width_append, hplace]
  refine ⟨?_, by omega, ?_, ?_, read, rest, hraw, ?_, hviable⟩
  · exact Text.slice?_eq_some_iff.2 ⟨before, after, htext, hplace, rfl⟩
  · rw [hraw, ← hoffset]
    simp only [Text.width_append]
    omega
  · refine ⟨before ++ d.opening ++ read, rest ++ d.closing ++ after, hread, ?_⟩
    rw [Text.width_append, hwidth, hoffset]
  · apply Text.slice?_eq_some_iff.2
    exact ⟨before ++ d.opening, _, hread, hwidth, by rw [hoffset]⟩

/-- A bracket in a name, behind a text whose first character is two bytes wide. -/
theorem decode_blames_viable_place_bracket :
    let text : Text := "é[[a.b[:f(x)]]".toList
    ∃ session : Session .standard, session.scan.text = text ∧
      (session.step .decode).result = .error (.malformed "[[a.b[:f(x)]]".toList 2 7
        (.reserved .segment "b[".toList '[')) ∧
      text.slice? 4 7 = some "a.b".toList ∧
      ∃ more found, Body.parse ("a.b".toList ++ more) Delimiters.standard.reserved = .ok found := by
  intro text
  let session : Session .standard := { scan := { text } }
  let span : Span .standard := ⟨2, "a.b[:f(x)".toList⟩
  let s : Spelling := ⟨⟨['a'], ["b[".toList]⟩, [⟨['f'], ⟨['x'], []⟩, []⟩]⟩
  have hbody : Grammar.read Grammar.body span.body = .ok (s.place 0) :=
    Grammar.read_body_eq_ok_iff.2 ⟨s, by decide, rfl, rfl⟩
  have hparse : Body.parse span.body Delimiters.standard.reserved =
      .error ⟨3, .reserved .segment "b[".toList '['⟩ := by
    apply (parse_eq_error_iff_find? hbody).2
    refine ⟨⟨.segment, ⟨2, "b[".toList⟩⟩, by decide, ?_⟩
    exact .reserved ['b'] [] (by decide) rfl (by decide) (by decide)
  have hfault : (session.step .decode).result = .error (.malformed "[[a.b[:f(x)]]".toList 2 7
      (.reserved .segment "b[".toList '[')) := by
    have hnext : session.scan.next.result = .ok (some span) := rfl
    have hmarker := Span.marker_of_decode_error (@Span.decode_of_parse_error _ span _ hparse)
    rw [(result_step_of_some hnext).2, hmarker]
    rfl
  obtain ⟨-, -, -, -, read, rest, hraw, hread, -, hviable⟩ := decode_blames_viable_place hfault
  have hslice : text.slice? 4 7 = some "a.b".toList := by decide
  obtain rfl : "a.b".toList = read := Option.some.inj (hslice.symm.trans hread)
  have hclosed : "[:f(x)".toList ++ "]]".toList = rest ++ "]]".toList := by
    simpa [Delimiters.standard] using hraw
  obtain rfl := List.append_cancel_right hclosed
  exact ⟨session, rfl, hfault, hslice, hviable ⟨s.place 0, hbody⟩ ⟨'x', by decide⟩⟩

end Session

end Stencil
