import Stencil.Proofs.Session
import Stencil.Proofs.Body.Walk

/-! # Spans and markers found by offsets

A search can also be made with offsets alone: both delimiters are looked for from a place on, the
text of a span is a slice between two places, and its body is a slice of that text. Each of these
steps goes wrong at a place that is no boundary, and a difference does if more is taken away than
there is. Wherever a session has got to, nothing of this happens, and what is found is the same.
-/

namespace Stencil

/-- What goes wrong in a search by offsets. -/
inductive Breach where
  /-- A delimiter is looked for from a place that is no boundary. -/
  | search (place : Nat)
  /-- The places are no boundaries in this order. -/
  | slice (start stop : Nat)
  | difference (minuend subtrahend : Nat)
deriving DecidableEq, Repr

def Text.findFrom (text mark : Text) (place : Nat) : Except Breach (Option Nat) :=
  match text.cut? place with
  | none => .error (.search place)
  | some (_, ahead) => .ok ((Text.around? mark ahead).map fun (gap, _) => place + gap.width)

def Text.sliceOrBreach (text : Text) (start stop : Nat) : Except Breach Text :=
  match text.slice? start stop with
  | none => .error (.slice start stop)
  | some found => .ok found

def difference (minuend subtrahend : Nat) : Except Breach Nat :=
  if subtrahend ≤ minuend then .ok (minuend - subtrahend)
  else .error (.difference minuend subtrahend)

section Steps

variable {text before found after mark gap rest : Text} {place start stop : Nat}

theorem Text.findFrom_eq_none (htext : text = before ++ rest) (hbefore : before.width = place)
    (h : ¬ mark.Occurs rest) : text.findFrom mark place = .ok none := by
  rw [Text.findFrom, Text.cut?_eq_some_iff.2 ⟨htext, hbefore⟩]
  simp only [Text.around?_eq_none_iff.2 h, Option.map_none]

theorem Text.findFrom_eq_some (htext : text = before ++ (gap ++ mark ++ rest))
    (hbefore : before.width = place) (h : mark.IsGap gap) :
    text.findFrom mark place = .ok (some (place + gap.width)) := by
  rw [Text.findFrom, Text.cut?_eq_some_iff.2 ⟨htext, hbefore⟩]
  simp only [Text.around?_eq_some_iff.2 ⟨rfl, h⟩, Option.map_some]

theorem Text.behind_mark (htext : text = before ++ (gap ++ mark ++ rest))
    (hbefore : before.width = place) :
    text = (before ++ gap ++ mark) ++ rest ∧
      (before ++ gap ++ mark).width = place + gap.width + mark.width := by
  rw [htext, Text.width_append, Text.width_append, hbefore]
  simp

theorem Text.sliceOrBreach_eq_ok (h : text.slice? start stop = some found) :
    text.sliceOrBreach start stop = .ok found := by
  rw [Text.sliceOrBreach, h]

theorem difference_eq_ok {minuend subtrahend : Nat} (h : subtrahend ≤ minuend) :
    difference minuend subtrahend = .ok (minuend - subtrahend) := if_pos h

end Steps

structure RawSpan where
  rawText : Text
  position : Nat
  length : Nat
deriving DecidableEq, Repr

variable {d : Delimiters}

def Span.raw (span : Span d) : RawSpan := ⟨span.rawText, span.position, span.length⟩

namespace Scan

/-- The next span, by offsets. -/
def nextByOffsets (scan : Scan d) : Except Breach (Outcome Fault (Scan d) (Option RawSpan)) := do
  match ← scan.text.findFrom d.opening scan.cursor with
  | none => return {
      result := .ok none
      state := { scan with cursor := scan.text.width }
      events := [.exhausted scan.cursor] }
  | some start =>
    match ← scan.text.findFrom d.closing (start + d.opening.width) with
    | none => return { result := .error (.unterminated start d.closing), state := scan }
    | some closing =>
      let stop := closing + d.closing.width
      let rawText ← scan.text.sliceOrBreach start stop
      let length ← difference stop start
      return {
        result := .ok (some { rawText, position := start, length })
        state := { scan with cursor := stop }
        events := [.matched start length rawText] }

/-- The next marker, by offsets and by way of a tree. -/
def nextMarkerByOffsets (scan : Scan d) :
    Except Breach (Outcome Fault (Scan d) (Option Marker)) := do
  match ← scan.nextByOffsets with
  | ⟨.error fault, scan, events⟩ => return ⟨.error fault, scan, events⟩
  | ⟨.ok none, scan, events⟩ => return ⟨.ok none, scan, events⟩
  | ⟨.ok (some raw), scan, events⟩ =>
    let bodyStart := raw.position + d.opening.width
    let bodyStop ← difference raw.length d.closing.width
    match raw.rawText.slice? d.opening.width bodyStop with
    | none => return {
        result := .error
          (.malformed raw.rawText raw.position bodyStart Guard.boundary.reason)
        state := scan
        events }
    | some body =>
      match Body.parseTree body d.reserved with
      | .error ⟨offset, reason⟩ => return {
          result := .error (.malformed raw.rawText raw.position (bodyStart + offset) reason)
          state := scan
          events := events ++ [.rejected raw.rawText raw.position reason] }
      | .ok body =>
        let marker : Marker := { body with
          rawText := raw.rawText
          position := raw.position
          length := raw.length }
        return {
          result := .ok (some marker)
          state := scan
          events := events ++
            [.decoded marker.position marker.relativePath marker.pipeline.length] }

end Scan

def rawOutcome (outcome : Outcome Fault (Scan d) (Option (Span d))) :
    Outcome Fault (Scan d) (Option RawSpan) :=
  ⟨outcome.result.map (Option.map Span.raw), outcome.state, outcome.events⟩

namespace Span

variable (span : Span d)

theorem stop_eq :
    span.stop = span.position + d.opening.width + span.body.width + d.closing.width := by
  rw [stop, length_eq]
  omega

theorem difference_stop : difference span.stop span.position = .ok span.length := by
  rw [stop, difference_eq_ok (Nat.le_add_right _ _), Nat.add_sub_cancel_left]

theorem bodyStop_le_length : d.opening.width ≤ span.length - d.closing.width := by
  rw [length_eq]
  omega

theorem closing_width_le_length : d.closing.width ≤ span.length := by
  rw [length_eq]
  omega

theorem slice?_rawText :
    span.rawText.slice? d.opening.width (span.length - d.closing.width) = some span.body := by
  apply Text.slice?_eq_some_iff.2
  refine ⟨d.opening, d.closing, rfl, rfl, ?_⟩
  rw [length_eq]
  omega

end Span

namespace Scan

variable {scan : Scan d}

theorem exists_of_next {span : Span d} (h : scan.next.result = .ok (some span)) :
    ∃ before after, scan.text = before ++ (d.opening ++ span.body ++ d.closing) ++ after ∧
      before.width = span.position := by
  rcases hnext : scan.next with ⟨result, next, events⟩
  rw [hnext] at h
  rcases next_eq_some (hnext.trans (congrArg (Outcome.mk · next events) h)) with
    ⟨done, gap, rest, htext, hdone, hposition, -⟩
  refine ⟨done ++ gap, rest, htext, ?_⟩
  rw [Text.width_append, hdone, hposition]

theorem slices_of_next {span : Span d} (h : scan.next.result = .ok (some span)) :
    scan.text.slice? span.position span.stop = some span.rawText ∧
    scan.text.slice? span.position span.bodyStart = some d.opening ∧
    scan.text.slice? span.bodyStart (span.stop - d.closing.width) = some span.body ∧
    scan.text.slice? (span.stop - d.closing.width) span.stop = some d.closing := by
  rcases exists_of_next h with ⟨before, after, htext, hbefore⟩
  have hstop : span.stop = span.bodyStart + span.body.width + d.closing.width := by
    rw [span.stop_eq, Span.bodyStart]
  have hbody : span.stop - d.closing.width = span.bodyStart + span.body.width := by omega
  have hstart : (before ++ d.opening).width = span.bodyStart := by
    rw [Text.width_append, hbefore, Span.bodyStart]
  rw [hbody]
  constructor
  · exact Text.slice?_eq_some_iff.2 ⟨before, after, htext, hbefore, rfl⟩
  constructor
  · exact Text.slice?_eq_some_iff.2
      ⟨before, span.body ++ d.closing ++ after, by simp [htext], hbefore, rfl⟩
  constructor
  · exact Text.slice?_eq_some_iff.2
      ⟨before ++ d.opening, d.closing ++ after, by simp [htext], hstart, rfl⟩
  · apply Text.slice?_eq_some_iff.2
    refine ⟨before ++ d.opening ++ span.body, after, by simp [htext], ?_, hstop.symm⟩
    rw [Text.width_append, hstart]

theorem nextByOffsets_eq (h : scan.text.IsBoundary scan.cursor) :
    scan.nextByOffsets = .ok (rawOutcome scan.next) := by
  rcases h with ⟨done, ahead, htext, hdone⟩
  have hahead : scan.ahead? = some ahead := ahead?_eq_some_iff.2 ⟨done, htext, hdone⟩
  rcases @ahead_cases d ahead with hopening | ⟨gap, rest, rfl, hgap, hclosing⟩ |
    ⟨gap, body, rest, rfl, hgap, hbody⟩
  · rw [nextByOffsets, Text.findFrom_eq_none htext hdone hopening,
      next_of_not_occurs hahead hopening]
    rfl
  · rcases Text.behind_mark htext hdone with ⟨hbehind, hwidth⟩
    rw [nextByOffsets, Text.findFrom_eq_some htext hdone hgap,
      next_of_unterminated hahead hgap hclosing]
    simp only [bind, Except.bind]
    rw [Text.findFrom_eq_none hbehind hwidth hclosing]
    rfl
  · rcases Text.behind_mark htext hdone with ⟨hbehind, hwidth⟩
    have hnext := next_of_span hahead hgap hbody
    rcases slices_of_next (congrArg Outcome.result hnext) with ⟨hslice, -⟩
    rw [nextByOffsets, Text.findFrom_eq_some htext hdone hgap, hnext]
    simp only [bind, Except.bind]
    rw [Text.findFrom_eq_some hbehind hwidth hbody]
    -- from here on the places of the search are those of the span that the scan finds
    generalize hspan : (⟨scan.cursor + gap.width, body⟩ : Span d) = span at hslice ⊢
    have hposition : scan.cursor + gap.width = span.position := by rw [← hspan]
    have hstop : span.position + d.opening.width + body.width + d.closing.width = span.stop := by
      rw [span.stop_eq, ← hspan]
    simp only [hposition, hstop]
    rw [Text.sliceOrBreach_eq_ok hslice]
    simp only
    rw [span.difference_stop]
    rfl

theorem nextMarkerByOffsets_eq (h : scan.text.IsBoundary scan.cursor) :
    scan.nextMarkerByOffsets = .ok scan.nextMarker := by
  rw [nextMarkerByOffsets, nextByOffsets_eq h]
  rcases hnext : scan.next with ⟨result, next, events⟩
  rcases result with fault | found
  · rw [nextMarker_of_error hnext]
    rfl
  · rcases found with _ | span
    · rw [nextMarker_of_none hnext]
      rfl
    · have hdifference := difference_eq_ok span.closing_width_le_length
      simp only [bind, Except.bind, rawOutcome, Except.map, Option.map_some, Span.raw,
        hdifference, span.slice?_rawText, Body.parseTree_eq]
      cases hbody : Body.parse span.body d.reserved with
      | error fault =>
        rw [nextMarker_of_decode_error hnext (Span.decode_of_parse_error hbody)]
        rfl
      | ok body =>
        rw [nextMarker_of_decode_ok hnext (Span.decode_of_parse_ok hbody)]
        rfl

/-- No span is refused in the words of a guard. -/
theorem message_ne_wording_of_nextMarker {rawText : Text} {position offset : Nat} {reason : Reason}
    (h : scan.nextMarker.result = .error (.malformed rawText position offset reason))
    (guard : Guard) : reason.message ≠ guard.wording := by
  rcases hnext : scan.next.result with fault | found
  · rw [result_nextMarker, hnext] at h
    rcases exists_of_next_eq_error hnext with ⟨place, rfl⟩
    cases h
  · rcases found with _ | span
    · rw [result_nextMarker, hnext] at h
      cases h
    · rw [result_nextMarker_of_some hnext] at h
      cases hdecode : span.decode with
      | ok marker =>
        rw [Span.marker_of_decode_ok hdecode] at h
        cases h
      | error fault =>
        rw [Span.marker_of_decode_error hdecode] at h
        cases h
        exact message_ne_wording
          (reason_ne_custom_of_parse (Span.exists_of_decode_eq_error hdecode)) guard

end Scan

/-- However a session is driven, the search by offsets never starts at a place that is no boundary,
never slices at one and never takes away more than there is. It finds what the scan
finds, and no body is refused in the words of a guard. -/
theorem Session.after_needs_no_guard (d : Delimiters) (requests : List Request) :
    let scan := (Session.after ({} : Session d) requests).scan
    scan.text.IsBoundary scan.cursor ∧
    scan.nextByOffsets = .ok (rawOutcome scan.next) ∧
    scan.nextMarkerByOffsets = .ok scan.nextMarker ∧
    (∀ span, scan.next.result = .ok (some span) →
      scan.text.slice? span.position span.stop = some span.rawText ∧
      scan.text.slice? span.position span.bodyStart = some d.opening ∧
      scan.text.slice? (span.stop - d.closing.width) span.stop = some d.closing ∧
      d.closing.width ≤ span.length ∧ d.opening.width ≤ span.length - d.closing.width ∧
      scan.text.slice? span.bodyStart (span.stop - d.closing.width) = some span.body ∧
      span.rawText.slice? d.opening.width (span.length - d.closing.width) = some span.body) ∧
    (∀ text reserved, Body.parseTree text reserved = Body.parse text reserved ∧
      ∀ fault, Body.parseTree text reserved = .error fault →
        ∀ guard : Guard, fault.reason.message ≠ guard.wording) ∧
    ∀ rawText position offset reason,
      scan.nextMarker.result = .error (.malformed rawText position offset reason) →
      ∀ guard : Guard, reason.message ≠ guard.wording := by
  intro scan
  rcases (isLeftBy_after d requests).scan with ⟨passed, ahead, open?, hstands, -⟩
  have hboundary := hstands.isBoundary
  constructor
  · exact hboundary
  constructor
  · exact Scan.nextByOffsets_eq hboundary
  constructor
  · exact Scan.nextMarkerByOffsets_eq hboundary
  constructor
  · intro span hspan
    rcases Scan.slices_of_next hspan with ⟨hraw, hopening, hbody, hclosing⟩
    exact ⟨hraw, hopening, hclosing, span.closing_width_le_length, span.bodyStop_le_length, hbody,
      span.slice?_rawText⟩
  constructor
  · intro text reserved
    rw [Body.parseTree_eq]
    constructor
    · rfl
    · intro fault hfault
      exact message_ne_wording (reason_ne_custom_of_parse hfault)
  · intro rawText position offset reason hfault
    exact Scan.message_ne_wording_of_nextMarker hfault

/-- The closing delimiter also stands across the end of the opening one, where it is not looked for,
and the body between them cannot be read. -/
theorem Session.after_needs_no_guard_overlap :
    let d : Delimiters := ⟨"é[".toList, "[.".toList, by decide, by decide, by decide⟩
    let scan := (Session.after ({} : Session d) [.bind "é[.[.".toList]).scan
    scan.nextMarkerByOffsets = .ok scan.nextMarker ∧
    scan.text.slice? 3 4 = some ['.'] ∧
    (∀ guard : Guard, (Reason.expected [.identifier]).message ≠ guard.wording) ∧
    scan.nextMarker.result = .error (.malformed "é[.[.".toList 0 3 (.expected [.identifier])) ∧
    "expected identifier" ≠ Guard.boundary.wording := by
  intro d scan
  have hspan : scan.next.result = .ok (some ⟨0, ['.']⟩) := rfl
  have hbody : Body.parseTree ['.'] d.reserved = .error ⟨0, .expected [.identifier]⟩ := rfl
  have hfault : scan.nextMarker.result =
      .error (.malformed "é[.[.".toList 0 3 (.expected [.identifier])) := rfl
  rcases Session.after_needs_no_guard d [.bind "é[.[.".toList] with
    ⟨-, -, hmarker, hslices, hread, hwording⟩
  rcases hslices _ hspan with ⟨-, -, -, -, -, hslice, -⟩
  exact ⟨hmarker, hslice, (hread _ _).2 _ hbody, hfault, hwording _ _ _ _ hfault .boundary⟩

end Stencil
