import Stencil.Proofs.Body.Canonical
import Stencil.Proofs.Scan.Markers
import Stencil.Proofs.Splice

/-! # Texts rendered

The markers of a text always fit it, so a text whose markers can be read is rendered unless the
caller refuses an answer. What stands between the markers is kept.
-/

namespace Stencil

variable {d : Delimiters} {ε σ : Type}

theorem Decomposition.fit {start : Nat} {text done ahead : Text} {spans : List (Span d)}
    {open? : Option Nat} {markers : List Marker} (h : Decomposition d start ahead spans open?)
    (htext : text = done ++ ahead) (hdone : done.width = start)
    (hmarkers : spans.mapM Span.marker = .ok markers) : Fit text start markers := by
  induction h generalizing done markers with
  | exhausted =>
    cases hmarkers
    exact fit_nil text _
  | unterminated =>
    cases hmarkers
    exact fit_nil text _
  | @span start gap body rest span spans open? _ _ hspan _ ih =>
    obtain ⟨marker, more, hmarker, hmore, rfl⟩ := mapM_cons_eq_ok_iff.1 hmarkers
    obtain ⟨hraw, hposition, hlength⟩ := Span.eq_of_marker_eq_ok hmarker
    have hstop := Span.stop_of_marker_eq_ok hmarker
    have hsplit : text = done ++ gap ++ span.rawText ++ rest := by
      simp [htext, hspan, Span.rawText]
    have hwidth : (done ++ gap).width = span.position := by
      rw [Text.width_append, hdone, hspan]
    refine fit_cons_iff.2 ⟨Marker.fault?_eq_none_iff.2 ⟨?_, ?_⟩, ?_⟩
    · rw [hposition, hspan]
      exact Nat.le_add_right start gap.width
    · rw [hraw, hposition, hlength]
      exact Text.slice?_eq_some_iff.2 ⟨done ++ gap, rest, hsplit, hwidth, rfl⟩
    · rw [hstop]
      apply ih hsplit _ hmore
      rw [Text.width_append, hwidth, Span.stop, Span.length]

/-- All the markers of a text can be replaced in it. -/
theorem fit_of_markersOf {text : Text} {markers : List Marker}
    (h : (markersOf d text).result = .ok markers) : Fit text 0 markers := by
  obtain ⟨spans, open?, hspans⟩ := exists_decomposition (d := d) 0 text
  exact hspans.fit (List.nil_append text).symm Text.width_nil (hspans.markersOf_eq_ok_iff.1 h).1

/-- A text is refused for a span, never for a marker that does not fit. -/
theorem markersOf_ne_unspliceable (d : Delimiters) (text : Text) (position : Nat)
    (reason : Reason) : (markersOf d text).result ≠ .error (.unspliceable position reason) := by
  intro h
  rcases fault_of_markersOf h with ⟨span, -, hspan⟩ | ⟨place, hplace⟩
  · obtain ⟨found, -, hfault⟩ := Span.exists_of_marker_eq_error hspan
    cases hfault
  · cases hplace

variable {replace : Replacer ε σ} {text : Text} {markers : List Marker} {state : σ}

theorem render_of_markersOf_eq_error {fault : Fault}
    (h : (markersOf d text).result = .error fault) :
    (render d replace text state).result = .error (.fault fault) ∧
      (render d replace text state).state = state := by
  rw [render]
  simp only [h, and_self]

theorem render_of_markersOf_eq_ok (h : (markersOf d text).result = .ok markers) :
    (render d replace text state).result = (splice replace text markers state).result ∧
      (render d replace text state).state = (splice replace text markers state).state := by
  rw [render]
  simp only [h, and_self]

/-- Answers for each marker with the marker's own text. -/
def putBack : Replacer ε σ := fun marker => pure marker.rawText

theorem answers_putBack (markers : List Marker) (state : σ) :
    answers (putBack : Replacer ε σ) markers state =
      (.ok (markers.map Marker.rawText), state) := by
  induction markers with
  | nil => rfl
  | cons marker markers ih =>
    rw [answers_cons_of_ok rfl, ih]
    rfl

/-- A text whose markers can be read is rendered from the caller's answers, one for each marker, and
its own characters. A caller that refuses one is not asked again, and one is not asked at all about
a text that is at fault. -/
theorem render_answers (d : Delimiters) (replace : Replacer ε σ) (text : Text) (state : σ) :
    let rendered := render d replace text state
    (∀ fault, (markersOf d text).result = .error fault →
      rendered.result = .error (.fault fault) ∧ rendered.state = state) ∧
    (∀ markers, (markersOf d text).result = .ok markers →
      markers.Pairwise (fun earlier later => earlier.stop ≤ later.position) ∧
      (∀ e last, answers replace markers state = (.error e, last) →
        rendered.result = .error (.refused e) ∧ rendered.state = last) ∧
      (∀ texts last, answers replace markers state = (.ok texts, last) →
        ∃ result, assembled text 0 (markers.zip texts) = some result ∧
          rendered.result = .ok result ∧ rendered.state = last) ∧
      (render d (putBack : Replacer ε σ) text state).result = .ok text) ∧
    ∀ position reason, rendered.result ≠ .error (.fault (.unspliceable position reason)) := by
  intro rendered
  refine ⟨fun fault => render_of_markersOf_eq_error, fun markers hmarkers => ?_, ?_⟩
  · have hfit := fit_of_markersOf hmarkers
    have hrendered := @render_of_markersOf_eq_ok d ε σ replace text markers state hmarkers
    refine ⟨hfit.pairwise, fun e last hanswers => ?_, fun texts last hanswers => ?_, ?_⟩
    · have hend := SpliceEnd.of_answers_eq_error (List.append_nil markers).symm hfit hanswers
      exact ⟨hrendered.1.trans hend.splice_eq.1, hrendered.2.trans hend.splice_eq.2⟩
    · obtain ⟨spliced, hspliced⟩ := hfit.exists_assembled hanswers
      have hend := SpliceEnd.finished hfit hanswers hspliced
      exact ⟨spliced, hspliced, hrendered.1.trans hend.splice_eq.1,
        hrendered.2.trans hend.splice_eq.2⟩
    · have hkept := hfit.assembled_rawText (List.nil_append text).symm Text.width_nil
      have hend := SpliceEnd.finished hfit (@answers_putBack ε σ markers state) hkept
      exact (render_of_markersOf_eq_ok hmarkers).1.trans hend.splice_eq.1
  · intro position reason hfault
    cases hmarkers : (markersOf d text).result with
    | error fault =>
      have hrendered := @render_of_markersOf_eq_error d ε σ replace text state fault hmarkers
      rw [hrendered.1] at hfault
      cases hfault
      exact markersOf_ne_unspliceable d text position reason hmarkers
    | ok markers =>
      have hfit := fit_of_markersOf hmarkers
      have hrendered := @render_of_markersOf_eq_ok d ε σ replace text markers state hmarkers
      rw [hrendered.1] at hfault
      exact hfit.result_splice_ne_fault hfault

/-- Two markers of which the caller answers for the first alone. -/
theorem render_answers_refusal :
    let once : Replacer Text Nat := fun marker => do
      let asked ← getModify (· + 1)
      if asked = 0 then return ['-'] else throw marker.rawText
    let rendered := render .standard once "[[x]] [[x]].".toList 0
    rendered.result = .error (.refused "[[x]]".toList) ∧ rendered.state = 2 ∧
      (render .standard (putBack : Replacer Text Nat) "[[x]] [[x]].".toList 0).result =
        .ok "[[x]] [[x]].".toList := by
  intro once
  let l : Layout := ⟨[⟨[], ['x']⟩, ⟨[' '], ['x']⟩], ['.']⟩
  have hl : l.IsLeftmost .standard := by decide
  have hbody : Body.IsCanonical "[[]]".toList ⟨[['x']], []⟩ := by decide
  have hbodies : [Body.parse ['x'] "[[]]".toList, Body.parse ['x'] "[[]]".toList] =
      [⟨[['x']], []⟩, ⟨[['x']], []⟩].map .ok := congrArg (fun r => [r, r]) hbody.parse_text
  have hmarkers : (markersOf .standard (l.text .standard)).result = .ok [
      ⟨⟨[['x']], []⟩, "[[x]]".toList, 0, 5⟩, ⟨⟨[['x']], []⟩, "[[x]]".toList, 6, 5⟩] :=
    hl.markersOf_eq hbodies rfl
  obtain ⟨-, hrefused, -, hkept⟩ := (render_answers .standard once _ 0).2.1 _ hmarkers
  have hrendered := hrefused "[[x]]".toList 2 rfl
  exact ⟨hrendered.1, hrendered.2, hkept⟩

end Stencil
