import Mathlib.Algebra.Ring.Int.Defs
import Stencil.Proofs.Render

/-! # What is reported about a run

The events of a run follow from the spans of the text and the answers of the caller. Every span that
is searched for leaves two events, and the last one says whether there was anything more to search.
Rendering adds one event for each replacement, and these events account for every byte by which the
result is longer or shorter than the text.
-/

namespace Stencil

variable {d : Delimiters}

/-- By how many bytes a finished step makes the text longer. -/
def Event.growth : Event → Int
  | .spliced _ length width => width - length
  | _ => 0

def growth (events : List Event) : Int := (events.map Event.growth).sum

@[simp] theorem growth_nil : growth [] = 0 := rfl

@[simp] theorem growth_cons (event : Event) (events : List Event) :
    growth (event :: events) = event.growth + growth events := rfl

@[simp] theorem growth_append (events more : List Event) :
    growth (events ++ more) = growth events + growth more := by
  simp [growth]

/-- What is put together of slices and replacements is as wide as the events of these say. -/
theorem width_of_assembled {text result : Text} {cursor : Nat} {replaced : List (Marker × Text)}
    (h : assembled text cursor replaced = some result) :
    (cursor : Int) + result.width = text.width + growth (splicings replaced) := by
  induction replaced generalizing cursor result with
  | nil =>
    rcases Text.slice?_eq_some_iff.1 h with ⟨before, after, -, -, hwidth⟩
    simp only [splicings, List.map_nil, growth_nil]
    omega
  | cons first replaced ih =>
    rcases first with ⟨marker, replacement⟩
    simp only [assembled, Option.bind_eq_bind, Option.pure_def, Option.bind_eq_some_iff,
      Option.some.injEq] at h
    rcases h with ⟨between, hbetween, behind, hbehind, rfl⟩
    rcases Text.slice?_eq_some_iff.1 hbetween with ⟨before, after, -, -, hwidth⟩
    have hlater := ih hbehind
    simp only [splicings, Marker.stop] at hlater
    simp only [splicings, List.map_cons, growth_cons, Event.growth, Text.width_append]
    omega

def Span.report (span : Span d) : List Event :=
  .matched span.position span.length span.rawText ::
    match span.decode with
    | .ok marker => [.decoded marker.position marker.relativePath marker.pipeline.length]
    | .error fault => [.rejected span.rawText span.position fault.reason]

/-- What is reported about spans behind `cursor`. A span that cannot be read is the last one that is
reported, and an opening delimiter that nothing closes is not reported at all. -/
def trace (d : Delimiters) (cursor : Nat) : List (Span d) → Option Nat → List Event
  | [], none => [.exhausted cursor]
  | [], some _ => []
  | span :: spans, open? =>
    span.report ++
      match span.decode with
      | .ok _ => trace d span.stop spans open?
      | .error _ => []

section Trace

variable {cursor : Nat} {span : Span d} {spans more : List (Span d)} {open? : Option Nat}

theorem Span.report_of_decode_ok {marker : Marker} (h : span.decode = .ok marker) :
    span.report = [.matched span.position span.length span.rawText,
      .decoded marker.position marker.relativePath marker.pipeline.length] := by
  rw [Span.report, h]

theorem trace_cons_of_ok {marker : Marker} (h : span.decode = .ok marker) :
    trace d cursor (span :: spans) open? = span.report ++ trace d span.stop spans open? := by
  rw [trace, h]

theorem trace_cons_of_error {fault : BodyFault} (h : span.decode = .error fault) :
    trace d cursor (span :: spans) open? =
      [.matched span.position span.length span.rawText,
        .rejected span.rawText span.position fault.reason] := by
  rw [trace, Span.report, h]
  rfl

theorem trace_append (h : ∀ s ∈ spans, ∃ marker, s.decode = .ok marker) :
    trace d cursor (spans ++ more) open? =
      spans.flatMap Span.report ++ trace d ((spans.map Span.stop).getLastD cursor) more open? := by
  induction spans generalizing cursor with
  | nil => rfl
  | cons span spans ih =>
    rcases h span (by simp) with ⟨marker, hmarker⟩
    rw [List.cons_append, trace_cons_of_ok hmarker, ih fun s hs => h s (by simp [hs]),
      List.flatMap_cons, List.append_assoc, List.map_cons, List.getLastD_cons]

theorem growth_trace (cursor : Nat) (spans : List (Span d)) (open? : Option Nat) :
    growth (trace d cursor spans open?) = 0 := by
  induction spans generalizing cursor with
  | nil => cases open? <;> rfl
  | cons span spans ih =>
    cases hspan : span.decode with
    | error fault => rw [trace_cons_of_error hspan]; rfl
    | ok marker =>
      rw [trace_cons_of_ok hspan, growth_append, ih, Span.report_of_decode_ok hspan]
      rfl

end Trace

theorem Scan.events_markers {scan : Scan d} {ahead : Text} {spans : List (Span d)}
    {open? : Option Nat} (h : Decomposition d scan.cursor ahead spans open?)
    (hahead : scan.ahead? = some ahead) :
    scan.markers.2.events = trace d scan.cursor spans open? := by
  generalize hstart : scan.cursor = start at h
  induction h generalizing scan with
  | exhausted hopening =>
    rw [markers, Outcome.drain_of_none (nextMarker_of_none (next_of_not_occurs hahead hopening)),
      hstart]
    rfl
  | unterminated hgap hclosing =>
    subst hstart
    rw [markers, Outcome.drain_of_error (nextMarker_of_error
      (next_of_unterminated hahead hgap hclosing))]
    rfl
  | @span start gap body rest span spans open? hgap hbody hspan _ ih =>
    subst hstart
    have hlater := ih (ahead?_of_span hahead) (congrArg Span.stop hspan.symm)
    have hnext := next_of_span hahead hgap hbody
    rw [← hspan] at hlater hnext
    cases hdecode : span.decode with
    | error fault =>
      rw [markers, Outcome.drain_of_error (nextMarker_of_decode_error hnext hdecode),
        trace_cons_of_error hdecode]
      rfl
    | ok marker =>
      rw [markers, Outcome.drain_of_some (nextMarker_of_decode_ok hnext hdecode), ← markers,
        hlater, trace_cons_of_ok hdecode, Span.report_of_decode_ok hdecode]
      rfl

theorem Decomposition.events_markersOf {text : Text} {spans : List (Span d)} {open? : Option Nat}
    (h : Decomposition d 0 text spans open?) : (markersOf d text).events = trace d 0 spans open? :=
  Scan.events_markers h (Scan.ahead?_eq_some_iff.2 ⟨[], rfl, rfl⟩)

section Search

variable {text : Text}

theorem growth_events_markersOf (d : Delimiters) (text : Text) :
    growth (markersOf d text).events = 0 := by
  rcases exists_decomposition (d := d) 0 text with ⟨spans, open?, h⟩
  rw [h.events_markersOf, growth_trace]

/-- The first span that cannot be read is reported last, for the reason that is returned. -/
theorem markersOf_of_decode_error {before after : List (Span d)} {span : Span d}
    {fault : BodyFault} (hspans : (spansOf d text).1 = before ++ span :: after)
    (hbefore : ∀ s ∈ before, ∃ marker, s.decode = .ok marker)
    (hspan : span.decode = .error fault) :
    (markersOf d text).result = .error (span.fault fault) ∧
      (markersOf d text).events = before.flatMap Span.report ++
        [.matched span.position span.length span.rawText,
          .rejected span.rawText span.position fault.reason] := by
  constructor
  · exact markersOf_of_marker_error hspans hbefore (Span.marker_of_decode_error hspan)
  · rcases exists_decomposition (d := d) 0 text with ⟨spans, open?, h⟩
    rw [(decomposition_iff.1 h).1] at hspans
    subst hspans
    rw [h.events_markersOf, trace_append hbefore, trace_cons_of_error hspan]

theorem events_markersOf_of_decode_ok
    (h : ∀ s ∈ (spansOf d text).1, ∃ marker, s.decode = .ok marker) :
    ((spansOf d text).2.result = .ok () →
      (markersOf d text).events = (spansOf d text).1.flatMap Span.report ++
        [.exhausted (((spansOf d text).1.map Span.stop).getLastD 0)]) ∧
    ∀ fault, (spansOf d text).2.result = .error fault →
      (markersOf d text).events = (spansOf d text).1.flatMap Span.report := by
  rcases exists_decomposition (d := d) 0 text with ⟨spans, open?, hspans⟩
  rcases decomposition_iff.1 hspans with ⟨hfound, hend⟩
  rw [hfound] at h
  rw [hfound, hend, hspans.events_markersOf]
  have htrace := @trace_append d 0 spans [] open? h
  rw [List.append_nil] at htrace
  rw [htrace]
  constructor
  · intro hopen
    rw [@endOf_inj d open? none hopen, trace]
  · intro fault hopen
    cases open? with
    | none => cases hopen
    | some position => rw [trace, List.append_nil]

end Search

section Render

variable {ε σ : Type} {replace : Replacer ε σ} {text : Text} {markers : List Marker} {state : σ}

theorem events_render_of_error {fault : Fault} (h : (markersOf d text).result = .error fault) :
    (render d replace text state).events = (markersOf d text).events := by
  rw [render]
  simp only [h]

theorem events_render_of_ok (h : (markersOf d text).result = .ok markers) :
    (render d replace text state).events =
      (markersOf d text).events ++ (splice replace text markers state).events := by
  rw [render]
  simp only [h]

theorem events_render_of_answers {texts : List Text} {last : σ}
    (h : (markersOf d text).result = .ok markers)
    (hanswers : answers replace markers state = (.ok texts, last)) :
    (render d replace text state).events =
      (markersOf d text).events ++ splicings (markers.zip texts) := by
  rcases splice_of_fit (fit_of_markersOf h) hanswers with ⟨spliced, -, hrun⟩
  rw [events_render_of_ok h, hrun]

theorem events_render_of_refusal {before after : List Marker} {marker : Marker}
    {texts : List Text} {next last : σ} {e : ε} (h : (markersOf d text).result = .ok markers)
    (heq : markers = before ++ marker :: after)
    (hanswers : answers replace before state = (.ok texts, next))
    (hanswer : answer replace marker next = (.error e, last)) :
    (render d replace text state).events =
      (markersOf d text).events ++ splicings (before.zip texts) := by
  have hfit := fit_of_markersOf h
  have hsplit : before ++ marker :: after = (before ++ [marker]) ++ after := by simp
  rw [heq, hsplit] at hfit
  rw [events_render_of_ok h, splice_of_refusal heq hfit.of_append hanswers hanswer]

/-- A rendered text is longer than the text by what the events account for. -/
theorem width_of_render {result : Text} (h : (render d replace text state).result = .ok result) :
    (result.width : Int) = text.width + growth (render d replace text state).events := by
  cases hmarkers : (markersOf d text).result with
  | error fault =>
    rw [(render_of_markersOf_eq_error hmarkers).1] at h
    cases h
  | ok markers =>
    rw [(render_of_markersOf_eq_ok hmarkers).1] at h
    rcases hanswers : answers replace markers state with ⟨e | texts, last⟩
    · have hend := SpliceEnd.of_answers_eq_error (List.append_nil markers).symm
        (fit_of_markersOf hmarkers) hanswers
      rw [hend.splice_eq.1] at h
      cases h
    · rcases splice_of_fit (fit_of_markersOf hmarkers) hanswers with ⟨spliced, hspliced, hrun⟩
      rw [hrun] at h
      cases h
      have hwidth := width_of_assembled hspliced
      rw [events_render_of_answers hmarkers hanswers, growth_append, growth_events_markersOf]
      omega

/-- The events of a run, from the spans of the text, the bodies that can be read and the answers of
the caller; and how many bytes they account for. -/
theorem events_account (d : Delimiters) (replace : Replacer ε σ) (text : Text) (state : σ) :
    let spans := (spansOf d text).1
    let parsed := markersOf d text
    let rendered := render d replace text state
    (∀ before span after fault, spans = before ++ span :: after →
      (∀ s ∈ before, ∃ marker, s.decode = .ok marker) → span.decode = .error fault →
      parsed.result = .error (.malformed span.rawText span.position
        (span.bodyStart + fault.offset) fault.reason) ∧
      parsed.events = before.flatMap Span.report ++
        [.matched span.position span.length span.rawText,
          .rejected span.rawText span.position fault.reason]) ∧
    ((∀ s ∈ spans, ∃ marker, s.decode = .ok marker) →
      ((spansOf d text).2.result = .ok () → parsed.events =
        spans.flatMap Span.report ++ [.exhausted ((spans.map Span.stop).getLastD 0)]) ∧
      ∀ fault, (spansOf d text).2.result = .error fault →
        parsed.events = spans.flatMap Span.report) ∧
    (∀ fault, parsed.result = .error fault → rendered.events = parsed.events) ∧
    (∀ markers, parsed.result = .ok markers →
      (∀ texts last, answers replace markers state = (.ok texts, last) →
        texts.length = markers.length ∧
          rendered.events = parsed.events ++ splicings (markers.zip texts)) ∧
      ∀ before marker after texts next e last, markers = before ++ marker :: after →
        answers replace before state = (.ok texts, next) →
        answer replace marker next = (.error e, last) →
        texts.length = before.length ∧
          rendered.events = parsed.events ++ splicings (before.zip texts)) ∧
    ∀ result, rendered.result = .ok result →
      (result.width : Int) = text.width + growth rendered.events := by
  intro spans parsed rendered
  constructor
  · intro before span after fault
    exact markersOf_of_decode_error
  constructor
  · exact events_markersOf_of_decode_ok
  constructor
  · intro fault
    exact events_render_of_error
  constructor
  · intro markers hmarkers
    constructor
    · intro texts last hanswers
      exact ⟨length_of_answers hanswers, events_render_of_answers hmarkers hanswers⟩
    · intro before marker after texts next e last heq hbefore hmarker
      exact ⟨length_of_answers hbefore, events_render_of_refusal hmarkers heq hbefore hmarker⟩
  · intro result
    exact width_of_render

/-- A body that cannot be read in front of an open delimiter, the open one alone, and a caller that
answers for the first of two markers or for both. Each body that can be read has a path of two
segments. -/
theorem events_account_endings :
    let once : Replacer Unit Nat := fun _ => do
      let asked ← getModify (· + 1)
      if asked = 0 then return ['-'] else throw ()
    let dash : Replacer Unit Nat := fun _ => return ['-']
    let rawText := "[[a.b:f()]]".toList
    (markersOf .standard "[[a.b:f()]] [[.]] [[b".toList).events = [
      .matched 0 11 rawText, .decoded 0 "a/b".toList 1, .matched 12 5 "[[.]]".toList,
      .rejected "[[.]]".toList 12 (.expected [.identifier])] ∧
    (render .standard dash "[[a.b:f()]] [[b".toList 0).events =
      [.matched 0 11 rawText, .decoded 0 "a/b".toList 1] ∧
    (render .standard once "[[a.b:f()]] [[a.b:f()]].".toList 0).events = [
      .matched 0 11 rawText, .decoded 0 "a/b".toList 1, .matched 12 11 rawText,
      .decoded 12 "a/b".toList 1, .exhausted 23, .spliced 0 11 1] ∧
    (render .standard dash "[[a.b:f()]] [[a.b:f()]].".toList 0).events = [
      .matched 0 11 rawText, .decoded 0 "a/b".toList 1, .matched 12 11 rawText,
      .decoded 12 "a/b".toList 1, .exhausted 23, .spliced 0 11 1, .spliced 12 11 1] ∧
    (4 : Int) = 24 + growth (render .standard dash "[[a.b:f()]] [[a.b:f()]].".toList 0).events := by
  intro once dash rawText
  let body : Body := ⟨[['a'], ['b']], [⟨['f'], []⟩]⟩
  let written : Text := ['a', '.', 'b', ':', 'f', '(', ')']
  let faulty : Layout := ⟨[⟨[], written⟩, ⟨[' '], ['.']⟩], " [[b".toList⟩
  let cut : Layout := ⟨[⟨[], written⟩], " [[b".toList⟩
  let whole : Layout := ⟨[⟨[], written⟩, ⟨[' '], written⟩], ['.']⟩
  have hfaulty : faulty.IsLeftmost .standard := by decide
  have hcut : cut.IsLeftmost .standard := by decide
  have hwhole : whole.IsLeftmost .standard := by decide
  let span (position : Nat) : Span .standard := ⟨position, written⟩
  let marker (position : Nat) : Marker := ⟨body, rawText, position, 11⟩
  have hwidth : Text.width rawText = 11 ∧ (whole.text .standard).width = 24 := by decide
  have hlength : ∀ position, (span position).length = 11 := fun _ => hwidth.1
  have hmarker : ∀ position, (span position).markerOf body = marker position := by
    intro position
    exact congrArg (Marker.mk body rawText position) (hlength position)
  have hbody : Body.IsCanonical "[[]]".toList body := by decide
  have hparse : Body.parse written "[[]]".toList = .ok body := hbody.parse_text
  have hread : ∀ position, (span position).decode = .ok (marker position) := by
    intro position
    have hdecode : (span position).decode = .ok ((span position).markerOf body) :=
      Span.decode_of_parse_ok hparse
    rw [hdecode, hmarker]
  have hreport : ∀ position, (span position).report =
      [.matched position 11 rawText, .decoded position "a/b".toList 1] := by
    intro position
    rw [Span.report_of_decode_ok (hread position), hlength]
    rfl
  have hspans : ∀ positions : List Nat,
      ∀ s ∈ positions.map span, ∃ marker, s.decode = .ok marker := by
    intro positions s hs
    rcases List.mem_map.1 hs with ⟨position, -, rfl⟩
    exact ⟨_, hread position⟩
  have hopened : (spansOf .standard (cut.text .standard)).1 = [span 0] :=
    hcut.spansOf_eq.1.trans (by decide)
  have hfound : (spansOf .standard (whole.text .standard)).1 = [span 0, span 12] :=
    hwhole.spansOf_eq.1.trans (by decide)
  have hbodies : [Body.parse written "[[]]".toList, Body.parse written "[[]]".toList] =
      [body, body].map .ok := congrArg (fun r => [r, r]) hparse
  have hmarkers :
      (markersOf .standard (whole.text .standard)).result = .ok [marker 0, marker 12] := by
    rw [hwhole.markersOf_eq hbodies rfl, ← hwhole.spansOf_eq.1, hfound, List.zipWith_cons_cons,
      List.zipWith_cons_cons, hmarker, hmarker, List.zipWith_nil_left]
  have hcutoff : (markersOf .standard (cut.text .standard)).result =
      .error (.unterminated 12 [']', ']']) := by
    apply markersOf_of_end_fault _ hcut.spansOf_eq.2
    · exact [body]
    · rw [hopened]
      exact congrArg (fun r => [r]) hparse
  rcases events_account .standard dash (faulty.text .standard) 0 with ⟨hmalformed, -⟩
  rcases events_account .standard dash (cut.text .standard) 0 with ⟨-, hopen, hunread, -⟩
  rcases events_account .standard once (whole.text .standard) 0 with ⟨-, hended, -, hrefused, -⟩
  rcases events_account .standard dash (whole.text .standard) 0 with ⟨-, -, -, hanswered, hgrowth⟩
  have hparsed := (hended (hfound ▸ hspans [0, 12])).1 hwhole.spansOf_eq.2
  rw [hfound, List.flatMap_cons, List.flatMap_singleton, hreport, hreport,
    show ([span 0, span 12].map Span.stop).getLastD 0 = 23 by decide] at hparsed
  have hrendered : (render .standard dash (whole.text .standard) 0).result = .ok "- -.".toList := by
    rw [(render_of_markersOf_eq_ok hmarkers).1]
    rfl
  constructor
  · have hevents := (hmalformed [span 0] ⟨12, ['.']⟩ [] ⟨0, .expected [.identifier]⟩
      (hfaulty.spansOf_eq.1.trans (by decide)) (hspans [0]) rfl).2
    rw [List.flatMap_singleton, hreport] at hevents
    exact hevents
  constructor
  · have hevents := (hopen (hopened ▸ hspans [0])).2 _ hcut.spansOf_eq.2
    rw [hopened, List.flatMap_singleton, hreport] at hevents
    exact (hunread _ hcutoff).trans hevents
  constructor
  · have hevents :=
      ((hrefused _ hmarkers).2 [marker 0] (marker 12) [] [['-']] 1 () 2 rfl rfl rfl).2
    exact hevents.trans (congrArg (· ++ splicings [(marker 0, ['-'])]) hparsed)
  constructor
  · have hevents := ((hanswered _ hmarkers).1 [['-'], ['-']] 0 rfl).2
    exact hevents.trans (congrArg (· ++ splicings [(marker 0, ['-']), (marker 12, ['-'])]) hparsed)
  · have hgrown := hgrowth _ hrendered
    rw [hwidth.2] at hgrown
    exact hgrown

end Render

end Stencil
