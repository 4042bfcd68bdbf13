import Mathlib.Algebra.GroupWithZero.Nat
import Stencil.Proofs.Render
import Stencil.Proofs.Scan.Place

/-! # How often a search finds something

Each span takes the cursor over both of its delimiters and its body, and a body that can be read is
never empty. What a run of searches has found is therefore bounded by the width of the text, and a
search that is repeated as long as it finds something comes to an end.
-/

namespace Stencil

variable {d : Delimiters}

namespace Outcome

variable {ε σ α : Type} {step : σ → Outcome ε σ (Option α)} {size : σ → Nat}
  {shrinks : ∀ state a next events, step state = ⟨.ok (some a), next, events⟩ →
    size next < size state}

/-- If each answer takes its weight from the size, all answers of a run together do. -/
theorem sum_drain_le (weight : α → Nat)
    (h : ∀ state a next events, step state = ⟨.ok (some a), next, events⟩ →
      weight a + size next ≤ size state) (state : σ) :
    ((drain step size shrinks state).1.map weight).sum ≤ size state := by
  fun_induction drain step size shrinks state with
  | case1 => simp
  | case2 => simp
  | case3 state a next events hstep found rest hrest ih =>
    have hfirst := h state a next events hstep
    have hlater : (found.map weight).sum ≤ size next := by simpa only [hrest] using ih
    rw [List.map_cons, List.sum_cons]
    omega

theorem length_drain_mul_le {cost : Nat}
    (h : ∀ state a next events, step state = ⟨.ok (some a), next, events⟩ →
      cost + size next ≤ size state) (state : σ) :
    (drain step size shrinks state).1.length * cost ≤ size state := by
  have hsum : ((drain step size shrinks state).1.map fun _ => cost).sum ≤ size state :=
    sum_drain_le _ h state
  rwa [List.map_const', List.sum_replicate_nat] at hsum

end Outcome

/-- A session that repeats a request is answered as the run of its search is, from the first answer
to the one that ends the run. -/
theorem Session.results_run_replicate {α : Type} {request : Request} {answer : Option α → Answer d}
    {search : Scan d → Outcome Fault (Scan d) (Option α)}
    (shrinks : ∀ scan a next events, search scan = ⟨.ok (some a), next, events⟩ →
      next.remaining < scan.remaining)
    (hstep : ∀ session : Session d,
      session.step request = session.proceed (search session.scan) answer) (session : Session d) :
    let found := Outcome.drain search Scan.remaining shrinks session.scan
    (session.run (List.replicate (found.1.length + 1) request)).map (·.result) =
      found.1.map (fun a => .ok (answer (some a))) ++
        [found.2.result.map fun _ => answer none] := by
  generalize hscan : session.scan = scan
  intro found
  induction scan using Outcome.drain.induct search Scan.remaining shrinks generalizing session with
  | case1 scan e next events h =>
    subst hscan
    have hfound : found = _ := Outcome.drain_of_error h
    simp [hfound, run, hstep, proceed, h, Except.map]
  | case2 scan next events h =>
    subst hscan
    have hfound : found = _ := Outcome.drain_of_none h
    simp [hfound, run, hstep, proceed, h, Except.map]
  | case3 scan a next events h _ _ _ ih =>
    subst hscan
    have hfound : found = _ := Outcome.drain_of_some h
    have hlater := ih { session with scan := next } rfl
    rw [hfound, List.length_cons, List.replicate_succ, run, List.map_cons, hstep, proceed, h,
      List.map_cons, List.cons_append]
    exact congrArg _ hlater

theorem Session.results_run_next (session : Session d) :
    (session.run (List.replicate (session.scan.spans.1.length + 1) .next)).map (·.result) =
      session.scan.spans.1.map (fun span => .ok (.span (some span))) ++
        [session.scan.spans.2.result.map fun _ => .span none] :=
  Session.results_run_replicate _ (fun _ => rfl) session

theorem Session.results_run_decode (session : Session d) :
    (session.run (List.replicate (session.scan.markers.1.length + 1) .decode)).map (·.result) =
      session.scan.markers.1.map (fun marker => .ok (.marker (some marker))) ++
        [session.scan.markers.2.result.map fun _ => .marker none] :=
  Session.results_run_replicate _ (fun _ => rfl) session

theorem Span.width_le_length (span : Span d) :
    d.opening.width + d.closing.width ≤ span.length := by
  rw [Span.length_eq]
  omega

theorem ne_nil_of_parse {text reserved : Text} {body : Body}
    (h : Body.parse text reserved = .ok body) : text ≠ [] := by
  obtain ⟨s, rfl, hs, -, -⟩ := parse_eq_ok_iff.1 h
  have hname : IsName s.path.first := hs.path s.path.first (by simp [Row.toList])
  simp [Spelling.text, Row.text, hname.1]

theorem Span.width_lt_length_of_marker {span : Span d} {marker : Marker}
    (h : span.marker = .ok marker) : d.opening.width + d.closing.width + 1 ≤ span.length := by
  cases hbody : Body.parse span.body d.reserved with
  | error fault =>
    rw [Span.marker_of_decode_error (Span.decode_of_parse_error hbody)] at h
    cases h
  | ok body =>
    have hwidth := Text.width_pos (ne_nil_of_parse hbody)
    rw [Span.length_eq]
    omega

namespace Scan

variable {scan next : Scan d} {span : Span d} {marker : Marker} {events : List Event}

/-- A span takes the cursor over its own bytes at least, and not beyond the text. -/
theorem cursor_add_length_le (h : scan.next.result = .ok (some span)) :
    scan.next.state.text = scan.text ∧ scan.cursor + span.length ≤ scan.next.state.cursor ∧
      scan.next.state.cursor ≤ scan.text.width := by
  rcases hnext : scan.next with ⟨result, next, events⟩
  rw [hnext] at h
  obtain ⟨done, gap, rest, htext, hdone, hposition, rfl⟩ :=
    next_eq_some (hnext.trans (congrArg (Outcome.mk · next events) h))
  have hwidth := congrArg Text.width htext
  simp only [Text.width_append, hdone] at hwidth
  simp only [Span.stop, Span.length, hposition, true_and]
  omega

theorem length_add_remaining_le_of_nextMarker
    (h : scan.nextMarker = ⟨.ok (some marker), next, events⟩) :
    marker.length + next.remaining ≤ scan.remaining ∧
      d.opening.width + d.closing.width + 1 ≤ marker.length := by
  obtain ⟨span, before, hnext, hdecode⟩ := next_of_nextMarker h
  have hmarker := Span.marker_of_decode_ok hdecode
  rw [(Span.eq_of_marker_eq_ok hmarker).2.2]
  exact ⟨length_add_remaining_le hnext, Span.width_lt_length_of_marker hmarker⟩

end Scan

section Runs

variable {text : Text}

theorem length_spansOf_mul_le (d : Delimiters) (text : Text) :
    (spansOf d text).1.length * (d.opening.width + d.closing.width) ≤ text.width := by
  apply Outcome.length_drain_mul_le
  intro scan span next events h
  have hlength := Scan.length_add_remaining_le h
  have hwidth := span.width_le_length
  omega

theorem length_markers_mul_le (d : Delimiters) (text : Text) :
    (Scan.markers ({ text } : Scan d)).1.length * (d.opening.width + d.closing.width + 1) ≤
      text.width := by
  apply Outcome.length_drain_mul_le
  intro scan marker next events h
  have hlength := Scan.length_add_remaining_le_of_nextMarker h
  omega

theorem sum_markers_le (d : Delimiters) (text : Text) :
    ((Scan.markers ({ text } : Scan d)).1.map Marker.length).sum ≤ text.width := by
  apply Outcome.sum_drain_le
  intro scan marker next events h
  exact (Scan.length_add_remaining_le_of_nextMarker h).1

theorem Fit.stop_le_width {cursor : Nat} {markers : List Marker} (h : Fit text cursor markers) :
    ∀ marker ∈ markers, marker.stop ≤ text.width := by
  intro marker hmarker
  obtain ⟨before, after, heq⟩ := List.append_of_mem hmarker
  have hslice := (Marker.fault?_eq_none_iff.1 (h before marker after heq)).2
  obtain ⟨front, back, htext, hfront, hstop⟩ := Text.slice?_eq_some_iff.1 hslice
  rw [htext, Marker.stop, ← hstop, ← hfront]
  simp

/-- The markers of a text are those that the run of searches for them has found. -/
theorem eq_of_markersOf_eq_ok {markers : List Marker}
    (h : (markersOf d text).result = .ok markers) :
    (Scan.markers ({ text } : Scan d)).1 = markers := by
  rw [markersOf] at h
  cases hend : (Scan.markers ({ text } : Scan d)).2.result with
  | error fault => simp [hend, Except.map] at h
  | ok _ => simpa [hend, Except.map] using h

end Runs

/-- A search that finds a span takes the cursor over both delimiters and not beyond the text. So a
session that asks for spans, or for markers, again and again finds one no more often than both
delimiters go into the text, and is then told that there is none or what is wrong. The markers of a
text that can be read have a byte more each, and lie in the text side by side. -/
theorem searches_end (d : Delimiters) (text : Text) :
    let both := d.opening.width + d.closing.width
    let spans := spansOf d text
    let markers := Scan.markers ({ text } : Scan d)
    (∀ (scan : Scan d) (span : Span d), scan.next.result = .ok (some span) →
      scan.next.state.text = scan.text ∧ scan.cursor < scan.next.state.cursor ∧
        scan.cursor + both ≤ scan.next.state.cursor ∧
        scan.next.state.cursor ≤ scan.text.width) ∧
    (spans.1.length ≤ text.width / both ∧ ∀ session : Session d,
      (session.run (.bind text :: List.replicate (spans.1.length + 1) .next)).map (·.result) =
        .ok .done :: spans.1.map (fun span => .ok (.span (some span))) ++
          [spans.2.result.map fun _ => .span none]) ∧
    (markers.1.length ≤ text.width / both ∧ ∀ session : Session d,
      (session.run (.bind text :: List.replicate (markers.1.length + 1) .decode)).map (·.result) =
        .ok .done :: markers.1.map (fun marker => .ok (.marker (some marker))) ++
          [markers.2.result.map fun _ => .marker none]) ∧
    ∀ found, (markersOf d text).result = .ok found →
      found.length * (both + 1) ≤ text.width ∧ (found.map Marker.length).sum ≤ text.width ∧
        ∀ marker ∈ found, marker.position + marker.length ≤ text.width := by
  intro both spans markers
  have hboth : 0 < both := Nat.add_pos_left d.opening_width_pos _
  have hspans : spans.1.length * both ≤ text.width := length_spansOf_mul_le d text
  have hmarkers : markers.1.length * (both + 1) ≤ text.width := length_markers_mul_le d text
  constructor
  · intro scan span h
    have hcursor := Scan.cursor_add_length_le h
    have hwidth : both ≤ span.length := span.width_le_length
    exact ⟨hcursor.1, by omega, by omega, hcursor.2.2⟩
  constructor
  · constructor
    · exact (Nat.le_div_iff_mul_le hboth).2 hspans
    · intro session
      exact congrArg (.ok .done :: ·) (Session.results_run_next { session with scan := { text } })
  constructor
  · constructor
    · apply (Nat.le_div_iff_mul_le hboth).2
      exact Nat.le_trans (Nat.mul_le_mul_left _ (Nat.le_succ both)) hmarkers
    · intro session
      exact congrArg (.ok .done :: ·) (Session.results_run_decode { session with scan := { text } })
  · intro found hfound
    constructor
    · rw [← eq_of_markersOf_eq_ok hfound]
      exact hmarkers
    constructor
    · rw [← eq_of_markersOf_eq_ok hfound]
      exact sum_markers_le d text
    · exact (fit_of_markersOf hfound).stop_le_width

/-- Markers that leave nothing of their text reach the bound. -/
theorem searches_end_sideBySide :
    let text : Text := "[[a]][[b]]".toList
    (∃ found, (markersOf .standard text).result = .ok found ∧ found.length * 5 = text.width ∧
      ∀ marker ∈ found, marker.position + marker.length ≤ 10) ∧
    (Scan.next ({ text, cursor := 5 } : Scan .standard)).state.cursor = 10 ∧
    5 < (Scan.next ({ text, cursor := 5 } : Scan .standard)).state.cursor := by
  intro text
  let l : Layout := ⟨[⟨[], ['a']⟩, ⟨[], ['b']⟩], []⟩
  have hl : l.IsLeftmost .standard := by decide
  have hbodies : [Body.parse ['a'] "[[]]".toList, Body.parse ['b'] "[[]]".toList] =
      [⟨[['a']], []⟩, ⟨[['b']], []⟩].map .ok := by
    have ha : Body.IsCanonical "[[]]".toList ⟨[['a']], []⟩ := by decide
    have hb : Body.IsCanonical "[[]]".toList ⟨[['b']], []⟩ := by decide
    rw [List.map_cons, List.map_singleton, ← ha.parse_text, ← hb.parse_text]
    rfl
  have hmarkers : (markersOf .standard text).result =
      .ok [⟨⟨[['a']], []⟩, "[[a]]".toList, 0, 5⟩, ⟨⟨[['b']], []⟩, "[[b]]".toList, 5, 5⟩] :=
    hl.markersOf_eq hbodies rfl
  have hspan : (Scan.next ({ text, cursor := 5 } : Scan .standard)).result =
      .ok (some ⟨5, ['b']⟩) := rfl
  have hsearches := searches_end .standard text
  constructor
  · exact ⟨_, hmarkers, rfl, (hsearches.2.2.2 _ hmarkers).2.2⟩
  · exact ⟨rfl, (hsearches.1 _ _ hspan).2.1⟩

end Stencil
