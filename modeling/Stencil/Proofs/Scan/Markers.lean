import Stencil.Scan.Markers
import Stencil.Proofs.Body.Meaning
import Stencil.Proofs.Scan.Layout

/-! # Markers and spans

The markers of a text are what its spans are read as, one after the other. The first span that
cannot be read is reported, however the text goes on; otherwise the end of the text decides.
-/

namespace Stencil

variable {d : Delimiters}

def Span.fault (span : Span d) (fault : BodyFault) : Fault :=
  .malformed span.rawText span.position (span.bodyStart + fault.offset) fault.reason

/-- The marker that a span is, or what is wrong with the text there. -/
def Span.marker (span : Span d) : Except Fault Marker := span.decode.mapError span.fault

theorem Span.marker_of_decode_ok {span : Span d} {marker : Marker}
    (h : span.decode = .ok marker) : span.marker = .ok marker := by
  rw [Span.marker, h]
  rfl

theorem Span.marker_of_decode_error {span : Span d} {fault : BodyFault}
    (h : span.decode = .error fault) : span.marker = .error (span.fault fault) := by
  rw [Span.marker, h]
  rfl

theorem Span.exists_of_marker_eq_error {span : Span d} {fault : Fault}
    (h : span.marker = .error fault) :
    ∃ found, span.decode = .error found ∧ fault = span.fault found := by
  cases hdecode : span.decode with
  | error found =>
    rw [Span.marker_of_decode_error hdecode] at h
    cases h
    exact ⟨found, rfl, rfl⟩
  | ok marker =>
    rw [Span.marker_of_decode_ok hdecode] at h
    cases h

theorem Span.decode_of_parse_ok {span : Span d} {body : Body}
    (h : Body.parse span.body d.reserved = .ok body) :
    span.decode = .ok { body with
      rawText := span.rawText, position := span.position, length := span.length } := by
  rw [decode, h]
  rfl

theorem Span.decode_of_parse_error {span : Span d} {fault : BodyFault}
    (h : Body.parse span.body d.reserved = .error fault) : span.decode = .error fault := by
  rw [decode, h]
  rfl

theorem Span.exists_of_decode_eq_error {span : Span d} {fault : BodyFault}
    (h : span.decode = .error fault) : Body.parse span.body d.reserved = .error fault := by
  cases hparse : Body.parse span.body d.reserved with
  | error found =>
    rw [Span.decode_of_parse_error hparse] at h
    cases h
    rfl
  | ok body =>
    rw [Span.decode_of_parse_ok hparse] at h
    cases h

theorem Span.eq_of_marker_eq_ok {span : Span d} {marker : Marker} (h : span.marker = .ok marker) :
    marker.rawText = span.rawText ∧ marker.position = span.position ∧
      marker.length = span.length := by
  rcases hdecode : span.decode with fault | found
  · rw [Span.marker_of_decode_error hdecode] at h
    cases h
  · rw [Span.marker_of_decode_ok hdecode] at h
    cases h
    rw [Span.decode] at hdecode
    cases hbody : Body.parse span.body d.reserved with
    | error fault => simp [hbody, Except.map] at hdecode
    | ok body =>
      rw [hbody] at hdecode
      cases hdecode
      exact ⟨rfl, rfl, rfl⟩

theorem Span.stop_of_marker_eq_ok {span : Span d} {marker : Marker}
    (h : span.marker = .ok marker) : marker.stop = span.stop := by
  obtain ⟨-, hposition, hlength⟩ := Span.eq_of_marker_eq_ok h
  rw [Marker.stop, hposition, hlength, Span.stop]

theorem Scan.exists_of_next_eq_error {scan : Scan d} {fault : Fault}
    (h : scan.next.result = .error fault) :
    ∃ position, fault = .unterminated position d.closing := by
  unfold Scan.next at h
  split at h
  · cases h
  · split at h
    · cases h
      exact ⟨_, rfl⟩
    · cases h

namespace Scan

section Step

variable {scan next : Scan d} {span : Span d} {events : List Event}

theorem nextMarker_of_error {fault : Fault} (h : scan.next = ⟨.error fault, next, events⟩) :
    scan.nextMarker = ⟨.error fault, next, events⟩ := by
  rw [nextMarker, h]

theorem nextMarker_of_none (h : scan.next = ⟨.ok none, next, events⟩) :
    scan.nextMarker = ⟨.ok none, next, events⟩ := by
  rw [nextMarker, h]

theorem nextMarker_of_decode_ok {marker : Marker}
    (h : scan.next = ⟨.ok (some span), next, events⟩) (hdecode : span.decode = .ok marker) :
    scan.nextMarker = ⟨.ok (some marker), next,
      events ++ [.decoded marker.position marker.relativePath marker.pipeline.length]⟩ := by
  rw [nextMarker, h]
  simp only [hdecode]

theorem nextMarker_of_decode_error {fault : BodyFault}
    (h : scan.next = ⟨.ok (some span), next, events⟩) (hdecode : span.decode = .error fault) :
    scan.nextMarker = ⟨.error (span.fault fault), next,
      events ++ [.rejected span.rawText span.position fault.reason]⟩ := by
  rw [nextMarker, h]
  simp only [hdecode, Span.fault]

end Step

theorem map_cons {end? : Except Fault Unit} {marker : Marker} {found : List Marker} :
    (end?.map fun _ => marker :: found) = (end?.map fun _ => found).map (marker :: ·) := by
  cases end? <;> rfl

theorem markers_of_decomposition {scan : Scan d} {ahead : Text} {spans : List (Span d)}
    {open? : Option Nat} (h : Decomposition d scan.cursor ahead spans open?)
    (hahead : scan.ahead? = some ahead) :
    (scan.markers.2.result.map fun _ => scan.markers.1) =
      (do
        let markers ← spans.mapM Span.marker
        let _ ← endOf d open?
        return markers) := by
  generalize hstart : scan.cursor = start at h
  induction h generalizing scan with
  | exhausted hopening =>
    have hstep := nextMarker_of_none (next_of_not_occurs hahead hopening)
    rw [markers, Outcome.drain_of_none hstep]
    rfl
  | unterminated hgap hclosing =>
    subst hstart
    have hstep := nextMarker_of_error (next_of_unterminated hahead hgap hclosing)
    rw [markers, Outcome.drain_of_error hstep]
    rfl
  | @span start gap body _ span spans open? hgap hbody hspan _ ih =>
    subst hstart
    have hlater := ih (ahead?_of_span hahead) (congrArg Span.stop hspan.symm)
    have hnext := next_of_span hahead hgap hbody
    rw [← hspan] at hlater hnext
    rw [List.mapM_cons]
    cases hdecode : span.decode with
    | error fault =>
      rw [Span.marker_of_decode_error hdecode, markers,
        Outcome.drain_of_error (nextMarker_of_decode_error hnext hdecode)]
      rfl
    | ok marker =>
      rw [Span.marker_of_decode_ok hdecode, markers,
        Outcome.drain_of_some (nextMarker_of_decode_ok hnext hdecode)]
      rw [map_cons, ← markers, hlater]
      cases spans.mapM Span.marker with
      | error fault => rfl
      | ok markers => cases endOf d open? <;> rfl

end Scan

/-- The markers of a text are what its spans are, unless one of them is at fault or the text ends
inside a span. -/
theorem Decomposition.result_markersOf {text : Text} {spans : List (Span d)} {open? : Option Nat}
    (h : Decomposition d 0 text spans open?) :
    (markersOf d text).result =
      (do
        let markers ← spans.mapM Span.marker
        let _ ← endOf d open?
        return markers) :=
  Scan.markers_of_decomposition h (Scan.ahead?_eq_some_iff.2 ⟨[], rfl, rfl⟩)

theorem result_markersOf (d : Delimiters) (text : Text) :
    (markersOf d text).result =
      (do
        let markers ← (spansOf d text).1.mapM Span.marker
        let _ ← (spansOf d text).2.result
        return markers) := by
  rcases exists_decomposition (d := d) 0 text with ⟨spans, open?, h⟩
  rcases decomposition_iff.1 h with ⟨hspans, hend⟩
  rw [hspans, hend]
  exact h.result_markersOf

theorem Decomposition.markersOf_eq_ok_iff {text : Text} {spans : List (Span d)}
    {open? : Option Nat} (h : Decomposition d 0 text spans open?) {markers : List Marker} :
    (markersOf d text).result = .ok markers ↔
      spans.mapM Span.marker = .ok markers ∧ open? = none := by
  rw [h.result_markersOf]
  constructor
  · intro hmarkers
    obtain ⟨found, hfound, hrest⟩ := bind_eq_ok_iff.1 hmarkers
    obtain ⟨_, hend, hreturn⟩ := bind_eq_ok_iff.1 hrest
    cases hreturn
    exact ⟨hfound, endOf_inj hend⟩
  · rintro ⟨hfound, rfl⟩
    rw [hfound]
    rfl

theorem fault_of_markersOf {text : Text} {fault : Fault}
    (h : (markersOf d text).result = .error fault) :
    (∃ span ∈ (spansOf d text).1, span.marker = .error fault) ∨
      ∃ position, fault = .unterminated position d.closing := by
  rcases exists_decomposition (d := d) 0 text with ⟨spans, open?, hspans⟩
  rw [hspans.result_markersOf] at h
  rcases bind_eq_error_iff.1 h with hmarkers | ⟨markers, -, hrest⟩
  · rw [(decomposition_iff.1 hspans).1]
    exact .inl (exists_mem_of_mapM_eq_error hmarkers)
  · rcases bind_eq_error_iff.1 hrest with hend | ⟨_, -, hreturn⟩
    · cases open? with
      | none => cases hend
      | some position =>
        cases hend
        exact .inr ⟨position, rfl⟩
    · cases hreturn

/-- The first span that is no marker decides, however the text goes on. -/
theorem markersOf_of_marker_error {text : Text} {before after : List (Span d)} {span : Span d}
    {fault : Fault} (hspans : (spansOf d text).1 = before ++ span :: after)
    (hbefore : ∀ s ∈ before, ∃ marker, s.decode = .ok marker) (hspan : span.marker = .error fault) :
    (markersOf d text).result = .error fault := by
  have hmarkers : ∀ s ∈ before, ∃ marker, s.marker = .ok marker := by
    intro s hs
    rcases hbefore s hs with ⟨marker, hmarker⟩
    exact ⟨marker, Span.marker_of_decode_ok hmarker⟩
  rw [result_markersOf, hspans, bind_eq_error_iff]
  exact .inl (mapM_eq_error_of_append hmarkers hspan)

theorem markersOf_of_fault {text : Text} {before after : List (Span d)} {span : Span d}
    {fault : BodyFault} (hspans : (spansOf d text).1 = before ++ span :: after)
    (hbefore : ∀ s ∈ before, ∃ body, Body.parse s.body d.reserved = .ok body)
    (hspan : Body.parse span.body d.reserved = .error fault) :
    (markersOf d text).result = .error (span.fault fault) := by
  apply markersOf_of_marker_error hspans
  · intro s hs
    rcases hbefore s hs with ⟨body, hbody⟩
    exact ⟨_, Span.decode_of_parse_ok hbody⟩
  · exact Span.marker_of_decode_error (Span.decode_of_parse_error hspan)

def Span.markerOf (span : Span d) (body : Body) : Marker :=
  { body with rawText := span.rawText, position := span.position, length := span.length }

theorem mapM_marker_of_parse {spans : List (Span d)} {bodies : List Body}
    (h : (spans.map fun s => Body.parse s.body d.reserved) = bodies.map .ok) :
    spans.mapM Span.marker = .ok (spans.zipWith Span.markerOf bodies) := by
  rw [mapM_eq_ok_iff]
  induction spans generalizing bodies with
  | nil => cases bodies <;> simp_all
  | cons span spans ih =>
    cases bodies with
    | nil => simp at h
    | cons body bodies =>
      simp only [List.map_cons, List.cons.injEq] at h
      rw [List.map_cons, ih h.2, Span.marker_of_decode_ok (Span.decode_of_parse_ok h.1)]
      rfl

theorem markersOf_of_end_fault {text : Text} {bodies : List Body} {fault : Fault}
    (h : ((spansOf d text).1.map fun s => Body.parse s.body d.reserved) = bodies.map .ok)
    (hend : (spansOf d text).2.result = .error fault) :
    (markersOf d text).result = .error fault := by
  rw [result_markersOf, mapM_marker_of_parse h, hend]
  rfl

theorem markersOf_of_parse {text : Text} {bodies : List Body}
    (h : ((spansOf d text).1.map fun s => Body.parse s.body d.reserved) = bodies.map .ok)
    (hend : (spansOf d text).2.result = .ok ()) :
    (markersOf d text).result = .ok ((spansOf d text).1.zipWith Span.markerOf bodies) := by
  rw [result_markersOf, mapM_marker_of_parse h, hend]
  rfl

theorem map_parse_spansFrom (start : Nat) (cells : List Cell) :
    ((spansFrom d start cells).map fun s => Body.parse s.body d.reserved) =
      cells.map fun cell => Body.parse cell.body d.reserved := by
  induction cells generalizing start with
  | nil => rfl
  | cons cell cells ih =>
    rw [spansFrom, List.map_cons, List.map_cons, ih]

/-- A text that is laid out with bodies that can be read has a marker for each. -/
theorem Layout.IsLeftmost.markersOf_eq {l : Layout} {bodies : List Body} (h : l.IsLeftmost d)
    (hbodies : (l.cells.map fun cell => Body.parse cell.body d.reserved) = bodies.map .ok)
    (hopen : l.open? d = none) :
    (markersOf d (l.text d)).result = .ok ((l.spans d).zipWith Span.markerOf bodies) := by
  rw [← map_parse_spansFrom 0, ← Layout.spans_eq] at hbodies
  exact h.decomposition.markersOf_eq_ok_iff.2 ⟨mapM_marker_of_parse hbodies, hopen⟩

/-- The first span that cannot be read is the fault of the text, whatever stands behind it. If all
can be read, an opening delimiter that nothing closes is, and otherwise each span is one marker. -/
theorem markersOf_spansOf (d : Delimiters) (text : Text) :
    (∀ before span after fault, (spansOf d text).1 = before ++ span :: after →
      (∀ s ∈ before, ∃ body, Body.parse s.body d.reserved = .ok body) →
      Body.parse span.body d.reserved = .error fault →
      (markersOf d text).result = .error (.malformed span.rawText span.position
        (span.position + d.opening.width + fault.offset) fault.reason)) ∧
    ((∀ s ∈ (spansOf d text).1, ∃ body, Body.parse s.body d.reserved = .ok body) →
      (∀ fault, (spansOf d text).2.result = .error fault →
        (markersOf d text).result = .error fault) ∧
      ((spansOf d text).2.result = .ok () →
        ∃ markers, (markersOf d text).result = .ok markers ∧
          markers.length = (spansOf d text).1.length ∧
          ∀ i (hspan : i < (spansOf d text).1.length) (hmarker : i < markers.length),
            Body.parse (spansOf d text).1[i].body d.reserved = .ok markers[i].toBody ∧
            markers[i].rawText = (spansOf d text).1[i].rawText ∧
            markers[i].position = (spansOf d text).1[i].position ∧
            markers[i].length = (spansOf d text).1[i].length)) := by
  refine ⟨fun before span after fault => markersOf_of_fault, fun hparse => ?_⟩
  rcases exists_map_eq_map_ok hparse with ⟨bodies, hbodies⟩
  refine ⟨fun fault => markersOf_of_end_fault hbodies, fun hend => ?_⟩
  have hlength : (spansOf d text).1.length = bodies.length := by
    simpa using congrArg List.length hbodies
  refine ⟨_, markersOf_of_parse hbodies hend, by simp [hlength], fun i hspan hmarker => ?_⟩
  have hbody := List.getElem_of_eq hbodies (by simpa using hspan)
  simp only [List.getElem_map] at hbody
  simp only [List.getElem_zipWith]
  exact ⟨hbody, rfl, rfl, rfl⟩

/-- A malformed span in front of an open one, an open one alone, and neither. -/
theorem markersOf_spansOf_endings :
    (markersOf .standard "[[a]] [[.]] [[b".toList).result =
      .error (.malformed "[[.]]".toList 6 8 (.expected [.identifier])) ∧
    (markersOf .standard "[[a]] [[b".toList).result = .error (.unterminated 6 [']', ']']) ∧
    ∃ markers, (markersOf .standard "x[[a]]".toList).result = .ok markers ∧ markers.length = 1 := by
  let faulty : Layout := ⟨[⟨[], ['a']⟩, ⟨[' '], ['.']⟩], " [[b".toList⟩
  let cut : Layout := ⟨[⟨[], ['a']⟩], " [[b".toList⟩
  let whole : Layout := ⟨[⟨['x'], ['a']⟩], []⟩
  have hfaulty : faulty.IsLeftmost .standard := by decide
  have hcut : cut.IsLeftmost .standard := by decide
  have hwhole : whole.IsLeftmost .standard := by decide
  have hparse : ∀ position, ∀ s ∈ [(⟨position, ['a']⟩ : Span .standard)],
      ∃ body, Body.parse s.body (Delimiters.reserved .standard) = .ok body := by
    intro position s hs
    rw [List.mem_singleton.1 hs]
    exact ⟨⟨[['a']], []⟩, parse_eq_ok_iff.2 ⟨⟨⟨['a'], []⟩, []⟩, rfl, by decide, by decide, rfl⟩⟩
  refine ⟨?_, ?_, ?_⟩
  · exact (markersOf_spansOf .standard _).1 [⟨0, ['a']⟩] ⟨6, ['.']⟩ [] ⟨0, .expected [.identifier]⟩
      hfaulty.spansOf_eq.1 (hparse 0) rfl
  · have hspans : (spansOf .standard "[[a]] [[b".toList).1 = [⟨0, ['a']⟩] := hcut.spansOf_eq.1
    exact ((markersOf_spansOf .standard _).2 (hspans ▸ hparse 0)).1 _ hcut.spansOf_eq.2
  · have hspans : (spansOf .standard "x[[a]]".toList).1 = [⟨1, ['a']⟩] := hwhole.spansOf_eq.1
    rcases ((markersOf_spansOf .standard _).2 (hspans ▸ hparse 1)).2 hwhole.spansOf_eq.2 with
      ⟨markers, hmarkers, hlength, -⟩
    exact ⟨markers, hmarkers, hlength.trans (congrArg List.length hspans)⟩

end Stencil
