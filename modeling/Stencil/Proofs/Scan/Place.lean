import Stencil.Proofs.Scan.Markers

/-! # Where a scan stands

A scan stands between the spans of its text that it has passed and those that are ahead of it. The
next search is about the first span ahead; with none ahead, the end of the text decides. Whether a
span or its marker is asked for, the scan goes the same way.
-/

namespace Stencil

variable {d : Delimiters}

theorem Span.position_lt_stop (span : Span d) : span.position < span.stop := by
  have hopening := d.opening_width_pos
  rw [Span.stop, Span.length_eq]
  omega

theorem Decomposition.start_le_position {start : Nat} {text : Text} {spans : List (Span d)}
    {open? : Option Nat} (h : Decomposition d start text spans open?) :
    ∀ span ∈ spans, start ≤ span.position := by
  induction h with
  | exhausted => simp
  | unterminated => simp
  | @span start gap body rest span spans open? _ _ hspan _ ih =>
    have hfirst : start ≤ span.position := by simp [hspan]
    intro other hother
    rcases List.mem_cons.1 hother with rfl | hother
    · exact hfirst
    · have hlater := ih other hother
      have hstop := span.position_lt_stop
      omega

namespace Scan

theorem result_nextMarker (scan : Scan d) :
    scan.nextMarker.result = scan.next.result.bind fun
      | none => .ok none
      | some span => span.marker.map some := by
  rcases hnext : scan.next with ⟨result, next, events⟩
  rcases result with fault | found
  · rw [nextMarker_of_error hnext]
    rfl
  · rcases found with _ | span
    · rw [nextMarker_of_none hnext]
      rfl
    · cases hdecode : span.decode with
      | error fault =>
        rw [nextMarker_of_decode_error hnext hdecode]
        simp [Span.marker_of_decode_error hdecode, Except.bind, Except.map]
      | ok marker =>
        rw [nextMarker_of_decode_ok hnext hdecode]
        simp [Span.marker_of_decode_ok hdecode, Except.bind, Except.map]

theorem result_nextMarker_of_some {scan : Scan d} {span : Span d}
    (h : scan.next.result = .ok (some span)) :
    scan.nextMarker.result = span.marker.map some := by
  rw [result_nextMarker, h]
  rfl

/-- Whether the body of a span can be read has no influence on how far the scan gets. -/
theorem state_nextMarker (scan : Scan d) : scan.nextMarker.state = scan.next.state := by
  rcases hnext : scan.next with ⟨result, next, events⟩
  rcases result with fault | found
  · rw [nextMarker_of_error hnext]
  · rcases found with _ | span
    · rw [nextMarker_of_none hnext]
    · cases hdecode : span.decode with
      | error fault => rw [nextMarker_of_decode_error hnext hdecode]
      | ok marker => rw [nextMarker_of_decode_ok hnext hdecode]

/-- The scan has passed some spans of its text and has the others ahead. -/
structure Stands (scan : Scan d) (passed ahead : List (Span d)) (open? : Option Nat) : Prop where
  whole : Decomposition d 0 scan.text (passed ++ ahead) open?
  rest : ∃ text, scan.ahead? = some text ∧ Decomposition d scan.cursor text ahead open?
  stop_le : ∀ span ∈ passed, span.stop ≤ scan.cursor

namespace Stands

variable {scan : Scan d} {passed ahead : List (Span d)} {span : Span d} {open? : Option Nat}

theorem of_start {text : Text} (h : Decomposition d 0 text ahead open?) :
    Stands { text } [] ahead open? where
  whole := h
  rest := ⟨text, ahead?_eq_some_iff.2 ⟨[], rfl, rfl⟩, h⟩
  stop_le := by simp

theorem isBoundary (h : scan.Stands passed ahead open?) : scan.text.IsBoundary scan.cursor := by
  obtain ⟨text, hahead, -⟩ := h.rest
  obtain ⟨done, htext, hdone⟩ := ahead?_eq_some_iff.1 hahead
  exact ⟨done, text, htext, hdone⟩

theorem cursor_le_width (h : scan.Stands passed ahead open?) : scan.cursor ≤ scan.text.width := by
  obtain ⟨done, rest, htext, hdone⟩ := h.isBoundary
  rw [htext, Text.width_append, hdone]
  omega

/-- The first span that starts at or behind the cursor is the first one ahead. -/
theorem find?_eq_head? (h : scan.Stands passed ahead open?) :
    (passed ++ ahead).find? (fun span => scan.cursor ≤ span.position) = ahead.head? := by
  have hpassed : passed.find? (fun span => scan.cursor ≤ span.position) = none := by
    apply List.find?_eq_none.2
    intro span hspan
    have hstop := h.stop_le span hspan
    have hposition := span.position_lt_stop
    simp only [decide_eq_true_eq]
    omega
  rw [List.find?_append, hpassed, Option.none_or]
  cases ahead with
  | nil => rfl
  | cons span ahead =>
    obtain ⟨text, -, hrest⟩ := h.rest
    have hposition := hrest.start_le_position span (by simp)
    simp [hposition]

theorem next_of_cons (h : scan.Stands passed (span :: ahead) open?) :
    scan.next = ⟨.ok (some span), { scan with cursor := span.stop },
      [.matched span.position span.length span.rawText]⟩ ∧
    Stands { scan with cursor := span.stop } (passed ++ [span]) ahead open? := by
  obtain ⟨text, hahead, hrest⟩ := h.rest
  have hstart := hrest.start_le_position span (by simp)
  have hstop := span.position_lt_stop
  have hpassed : ∀ other ∈ passed ++ [span], other.stop ≤ span.stop := by
    intro other hother
    rcases List.mem_append.1 hother with hother | hother
    · have hearlier := h.stop_le other hother
      omega
    · exact Nat.le_of_eq (congrArg Span.stop (List.mem_singleton.1 hother))
  cases hrest with
  | span hgap hbody hspan hlater =>
    subst hspan
    refine ⟨next_of_span hahead hgap hbody, ?_, ⟨_, ahead?_of_span hahead, hlater⟩, hpassed⟩
    simpa using h.whole

theorem next_of_open {position : Nat} (h : scan.Stands passed [] (some position)) :
    scan.next = ⟨.error (.unterminated position d.closing), scan, []⟩ := by
  obtain ⟨text, hahead, hrest⟩ := h.rest
  cases hrest with
  | unterminated hgap hclosing => exact next_of_unterminated hahead hgap hclosing

theorem next_of_nil (h : scan.Stands passed [] none) :
    scan.next = ⟨.ok none, { scan with cursor := scan.text.width }, [.exhausted scan.cursor]⟩ ∧
    Stands { scan with cursor := scan.text.width } passed [] none := by
  obtain ⟨text, hahead, hrest⟩ := h.rest
  have hwidth := h.cursor_le_width
  cases hrest with
  | exhausted hopening =>
    refine ⟨next_of_not_occurs hahead hopening, h.whole, ⟨[], ?_, ?_⟩, ?_⟩
    · exact ahead?_eq_some_iff.2 ⟨scan.text, by simp, rfl⟩
    · exact .exhausted (Text.not_occurs_nil d.opening_ne_nil)
    · exact fun span hspan => Nat.le_trans (h.stop_le span hspan) hwidth

/-- A search keeps the text, and moves the cursor forward or not at all. -/
theorem text_next_and_cursor_le (h : scan.Stands passed ahead open?) :
    scan.next.state.text = scan.text ∧ scan.cursor ≤ scan.next.state.cursor := by
  cases ahead with
  | cons span ahead =>
    obtain ⟨text, -, hrest⟩ := h.rest
    have hstart := hrest.start_le_position span (by simp)
    have hstop := span.position_lt_stop
    rw [h.next_of_cons.1]
    exact ⟨rfl, by simp only; omega⟩
  | nil =>
    cases open? with
    | some position =>
      rw [h.next_of_open]
      exact ⟨rfl, Nat.le_refl _⟩
    | none =>
      rw [h.next_of_nil.1]
      exact ⟨rfl, h.cursor_le_width⟩

end Stands

end Scan

end Stencil
