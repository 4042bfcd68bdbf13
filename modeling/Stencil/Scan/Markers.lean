import Stencil.Body.Grammar
import Stencil.Body.Basic
import Stencil.Scan.Basic

/-! # Markers of a text

A span whose body can be read is a marker. A body that cannot be read is a fault of its span alone:
the scan has already passed the span, and may be asked for the next one.
-/

namespace Stencil

variable {d : Delimiters}

/-- The marker that a span is, or what is wrong with its body. -/
def Span.decode (span : Span d) : Except BodyFault Marker :=
  (Body.parse span.body d.reserved).map fun body =>
    { body with
      rawText := span.rawText
      position := span.position
      length := span.length }

namespace Scan

def nextMarker (scan : Scan d) : Outcome Fault (Scan d) (Option Marker) :=
  match scan.next with
  | ⟨.error fault, scan, events⟩ => ⟨.error fault, scan, events⟩
  | ⟨.ok none, scan, events⟩ => ⟨.ok none, scan, events⟩
  | ⟨.ok (some span), scan, events⟩ =>
    match span.decode with
    | .ok marker => {
        result := .ok (some marker)
        state := scan
        events := events ++
          [.decoded marker.position marker.relativePath marker.pipeline.length] }
    | .error ⟨offset, reason⟩ => {
        result := .error
          (.malformed span.rawText span.position (span.bodyStart + offset) reason)
        state := scan
        events := events ++ [.rejected span.rawText span.position reason] }

theorem next_of_nextMarker {scan next : Scan d} {marker : Marker} {events : List Event}
    (h : scan.nextMarker = ⟨.ok (some marker), next, events⟩) :
    ∃ span before, scan.next = ⟨.ok (some span), next, before⟩ ∧ span.decode = .ok marker := by
  unfold nextMarker at h
  split at h
  · simp at h
  · simp at h
  · next span next' before hnext =>
    split at h
    · next marker' hdecode =>
      simp only [Outcome.mk.injEq, Except.ok.injEq, Option.some.injEq] at h
      obtain ⟨rfl, rfl, -⟩ := h
      exact ⟨span, before, hnext, hdecode⟩
    · simp at h

/-- Every marker of what is ahead in front of the first fault, and how the search ended. -/
def markers (scan : Scan d) : List Marker × Outcome Fault (Scan d) Unit :=
  Outcome.drain nextMarker remaining
    (fun _ _ _ _ h => have ⟨_, _, hnext, _⟩ := next_of_nextMarker h
      remaining_lt_of_next hnext) scan

end Scan

/-- Every marker of a text, or its first fault. -/
def markersOf (d : Delimiters) (text : Text) : Outcome Fault (Scan d) (List Marker) :=
  let found := Scan.markers { text }
  { found.2 with result := found.2.result.map fun _ => found.1 }

end Stencil
