import Stencil.Proofs.Scan.Place

/-! # Sessions and the spans of their text

However a session is driven, its scan stands at the start of its text, behind one of its spans, or
at its end after a search that found nothing more. Each search is about the first span from there
on. A session that cannot go on stays as it is until it starts over or goes back.
-/

namespace Stencil

variable {d : Delimiters}

/-- The request neither starts over nor goes back to the scan that was put aside. -/
def Request.goesOn : Request → Bool
  | .bind _ => false
  | .restore => false
  | _ => true

def Session.after (session : Session d) : List Request → Session d
  | [] => session
  | request :: requests => after (session.step request).state requests

def FoundNothing (outcome : Outcome Fault (Session d) (Answer d)) : Prop :=
  outcome.result = .ok (.span none) ∨ outcome.result = .ok (.marker none)

/-- As long as the session goes on, its scan stays the same, and so do the answers to a search for a
span and to a search for a marker. -/
def Session.IsStuck (session : Session d) (span marker : Except Fault (Answer d)) : Prop :=
  ∀ more : List Request, (∀ request ∈ more, request.goesOn) →
    (session.after more).scan = session.scan ∧
    ((session.after more).step .next).result = span ∧
    ((session.after more).step .decode).result = marker

/-- What the next search of a session comes to, for a span as for its marker. It is about the given
span, and the session goes on behind it whether or not its body can be read. Without a span the
session is stuck, at an opening delimiter that nothing closes or at the end of its text. -/
def Session.Finds (session : Session d) : Option (Span d) → (open? : Option Nat) → Prop
  | some span, _ =>
    (session.step .next).result = .ok (.span (some span)) ∧
    (session.step .decode).result = span.marker.map (fun marker => .marker (some marker)) ∧
    ∀ request ∈ [Request.next, .decode], (session.step request).state =
      { session with scan := { session.scan with cursor := span.stop } }
  | none, some position =>
    session.IsStuck (.error (.unterminated position d.closing))
      (.error (.unterminated position d.closing)) ∧
    ∀ request ∈ [Request.next, .decode], (session.step request).state = session
  | none, none =>
    let final :=
      { session with scan := { session.scan with cursor := session.scan.text.width } }
    (session.step .next).result = .ok (.span none) ∧
    (session.step .decode).result = .ok (.marker none) ∧
    (∀ request ∈ [Request.next, .decode], (session.step request).state = final) ∧
    final.IsStuck (.ok (.span none)) (.ok (.marker none))

/-- The scan stands where a run with these outcomes can have left it. -/
def Scan.IsLeftBy (outcomes : List (Outcome Fault (Session d) (Answer d))) (scan : Scan d) : Prop :=
  ∃ passed ahead open?, scan.Stands passed ahead open? ∧
    (scan.cursor = 0 ∨ (∃ span ∈ passed, scan.cursor = span.stop) ∨
      scan.cursor = scan.text.width ∧
        ∃ outcome ∈ outcomes, FoundNothing outcome ∧ outcome.state.scan = scan)

namespace Scan

variable {outcomes : List (Outcome Fault (Session d) (Answer d))} {scan : Scan d}

theorem IsLeftBy.of_start (text : Text) : IsLeftBy outcomes ({ text } : Scan d) := by
  obtain ⟨spans, open?, h⟩ := exists_decomposition (d := d) 0 text
  exact ⟨[], spans, open?, .of_start h, .inl rfl⟩

theorem IsLeftBy.append (h : scan.IsLeftBy outcomes)
    (more : List (Outcome Fault (Session d) (Answer d))) : scan.IsLeftBy (outcomes ++ more) := by
  obtain ⟨passed, ahead, open?, hstands, hcursor⟩ := h
  refine ⟨passed, ahead, open?, hstands, ?_⟩
  rcases hcursor with hzero | hstop | ⟨hwidth, outcome, hmem, hnothing, hscan⟩
  · exact .inl hzero
  · exact .inr (.inl hstop)
  · exact .inr (.inr ⟨hwidth, outcome, List.mem_append_left more hmem, hnothing, hscan⟩)

/-- A search takes the scan to the end of a span or of the text, or leaves it alone. -/
theorem IsLeftBy.search (h : scan.IsLeftBy outcomes)
    {outcome : Outcome Fault (Session d) (Answer d)} (hstate : outcome.state.scan = scan.next.state)
    (hnothing : scan.next.result = .ok none → FoundNothing outcome) :
    outcome.state.scan.IsLeftBy (outcomes ++ [outcome]) := by
  obtain ⟨passed, ahead, open?, hstands, hcursor⟩ := h
  cases ahead with
  | cons span ahead =>
    obtain ⟨hnext, hlater⟩ := hstands.next_of_cons
    rw [hnext] at hstate
    rw [hstate]
    exact ⟨_, _, _, hlater, .inr (.inl ⟨span, by simp, rfl⟩)⟩
  | nil =>
    cases open? with
    | some position =>
      rw [hstands.next_of_open] at hstate
      rw [hstate]
      exact IsLeftBy.append ⟨_, _, _, hstands, hcursor⟩ [outcome]
    | none =>
      obtain ⟨hnext, hlater⟩ := hstands.next_of_nil
      rw [hnext] at hstate hnothing
      rw [hstate]
      exact ⟨_, _, _, hlater, .inr (.inr ⟨rfl, outcome, by simp, hnothing rfl, hstate⟩)⟩

end Scan

namespace Session

variable {session : Session d} {outcomes : List (Outcome Fault (Session d) (Answer d))}

structure IsLeftBy (outcomes : List (Outcome Fault (Session d) (Answer d)))
    (session : Session d) : Prop where
  scan : session.scan.IsLeftBy outcomes
  saved : session.saved.IsLeftBy outcomes

section Answers

theorem result_step_of_error {fault : Fault} (h : session.scan.next.result = .error fault) :
    (session.step .next).result = .error fault ∧ (session.step .decode).result = .error fault := by
  simp only [step, proceed, Scan.result_nextMarker, h]
  exact ⟨rfl, rfl⟩

theorem result_step_of_none (h : session.scan.next.result = .ok none) :
    (session.step .next).result = .ok (.span none) ∧
      (session.step .decode).result = .ok (.marker none) := by
  simp only [step, proceed, Scan.result_nextMarker, h]
  exact ⟨rfl, rfl⟩

theorem result_step_of_some {span : Span d} (h : session.scan.next.result = .ok (some span)) :
    (session.step .next).result = .ok (.span (some span)) ∧
      (session.step .decode).result = span.marker.map (fun marker => .marker (some marker)) := by
  simp only [step, proceed, Scan.result_nextMarker, h, Except.bind]
  refine ⟨rfl, ?_⟩
  cases span.marker <;> rfl

end Answers

/-- A search for a marker leaves the session as a search for a span does. -/
theorem state_step_decode (session : Session d) :
    (session.step .decode).state = (session.step .next).state := by
  simp only [step, proceed, Scan.state_nextMarker]

theorem IsLeftBy.step (h : session.IsLeftBy outcomes) (request : Request) :
    (session.step request).state.IsLeftBy (outcomes ++ [session.step request]) := by
  cases request with
  | bind text => exact ⟨.of_start text, h.saved.append _⟩
  | next =>
    refine ⟨h.scan.search rfl fun hnone => .inl ?_, h.saved.append _⟩
    exact (result_step_of_none hnone).1
  | decode =>
    refine ⟨h.scan.search (session.scan.state_nextMarker) fun hnone => .inr ?_, h.saved.append _⟩
    exact (result_step_of_none hnone).2
  | save => exact ⟨h.scan.append _, h.scan.append _⟩
  | restore => exact ⟨h.saved.append _, h.saved.append _⟩
  | delimiters => exact ⟨h.scan.append _, h.saved.append _⟩

theorem IsLeftBy.run (h : session.IsLeftBy outcomes) (requests : List Request) :
    (session.after requests).IsLeftBy (outcomes ++ session.run requests) := by
  induction requests generalizing session outcomes with
  | nil => simpa [after, Session.run] using h
  | cons request requests ih =>
    have hlater := ih (h.step request)
    simpa [after, Session.run] using hlater

/-- A search that leaves the scan alone leaves it alone however often it is repeated. -/
theorem isStuck_of_state_next (hstate : session.scan.next.state = session.scan) :
    session.IsStuck (session.step .next).result (session.step .decode).result := by
  intro more hmore
  have hscan : (session.after more).scan = session.scan := by
    induction more generalizing session with
    | nil => rfl
    | cons request more ih =>
      have hstep : (session.step request).state.scan = session.scan := by
        cases request with
        | bind text => simp [Request.goesOn] at hmore
        | next => exact hstate
        | decode => exact session.scan.state_nextMarker.trans hstate
        | save => rfl
        | restore => simp [Request.goesOn] at hmore
        | delimiters => rfl
      have hlater := ih (by rw [hstep, hstate]) fun r hr => hmore r (by simp [hr])
      rw [after, hlater, hstep]
  simp only [step, proceed, hscan, and_self]

theorem run_append_singleton (session : Session d) (requests : List Request) (request : Request) :
    session.run (requests ++ [request]) =
      session.run requests ++ [(session.after requests).step request] := by
  induction requests generalizing session with
  | nil => rfl
  | cons first requests ih =>
    rw [List.cons_append, Session.run, ih]
    rfl

theorem isLeftBy_after (d : Delimiters) (requests : List Request) :
    (Session.after ({} : Session d) requests).IsLeftBy (Session.run {} requests) := by
  have hfresh : IsLeftBy [] ({} : Session d) := ⟨.of_start [], .of_start []⟩
  exact hfresh.run requests

theorem state_step_of_mem {next : Scan d} (hnext : session.scan.next.state = next) :
    ∀ request ∈ [Request.next, .decode],
      (session.step request).state = { session with scan := next } := by
  subst hnext
  intro request hrequest
  simp only [List.mem_cons, List.not_mem_nil, or_false] at hrequest
  rcases hrequest with rfl | rfl
  · rfl
  · exact state_step_decode session

/-- A session finds the first span that is ahead of its scan. -/
theorem finds_of_stands {passed ahead : List (Span d)} {open? : Option Nat}
    (h : session.scan.Stands passed ahead open?) : session.Finds ahead.head? open? := by
  cases ahead with
  | cons span ahead =>
    have hnext := h.next_of_cons.1
    have hresult := result_step_of_some (congrArg Outcome.result hnext)
    exact ⟨hresult.1, hresult.2, state_step_of_mem (congrArg Outcome.state hnext)⟩
  | nil =>
    cases open? with
    | some position =>
      have hnext := h.next_of_open
      have hstuck := isStuck_of_state_next (congrArg Outcome.state hnext)
      have hresult := result_step_of_error (congrArg Outcome.result hnext)
      rw [hresult.1, hresult.2] at hstuck
      exact ⟨hstuck, state_step_of_mem (congrArg Outcome.state hnext)⟩
    | none =>
      obtain ⟨hnext, hlater⟩ := h.next_of_nil
      have hresult := result_step_of_none (congrArg Outcome.result hnext)
      let final : Session d :=
        { session with scan := { session.scan with cursor := session.scan.text.width } }
      -- the search that starts at the end of the text goes nowhere
      have hagain : final.scan.next = ⟨.ok none, final.scan, _⟩ := hlater.next_of_nil.1
      have hstuck := isStuck_of_state_next (congrArg Outcome.state hagain)
      have hnothing := result_step_of_none (congrArg Outcome.result hagain)
      rw [hnothing.1, hnothing.2] at hstuck
      exact ⟨hresult.1, hresult.2, state_step_of_mem (congrArg Outcome.state hnext), hstuck⟩

theorem cursor_le_step {passed ahead : List (Span d)} {open? : Option Nat}
    (h : session.scan.Stands passed ahead open?) {request : Request} (hrequest : request.goesOn) :
    (session.step request).state.scan.text = session.scan.text ∧
      session.scan.cursor ≤ (session.step request).state.scan.cursor := by
  cases request with
  | bind text => simp [Request.goesOn] at hrequest
  | next => exact h.text_next_and_cursor_le
  | decode =>
    rw [state_step_decode]
    exact h.text_next_and_cursor_le
  | save => exact ⟨rfl, Nat.le_refl _⟩
  | restore => simp [Request.goesOn] at hrequest
  | delimiters => exact ⟨rfl, Nat.le_refl _⟩

/-- After any requests a session stands at the start of its text, behind a span of it or, after a
search that found nothing, at its end. What it finds next is the first span from there on, and no
request moves it back but those that start over or go back to another scan. -/
theorem after_stands_between_spans (d : Delimiters) (requests : List Request) :
    let session : Session d := Session.after {} requests
    let scan := session.scan
    ∃ spans open?, Decomposition d 0 scan.text spans open? ∧
      scan.text.IsBoundary scan.cursor ∧
      (scan.cursor = 0 ∨ (∃ span ∈ spans, scan.cursor = span.stop) ∨
        scan.cursor = scan.text.width ∧
          ∃ outcome ∈ Session.run {} requests, FoundNothing outcome ∧ outcome.state.scan = scan) ∧
      session.Finds (spans.find? fun span => scan.cursor ≤ span.position) open? ∧
      ∀ request : Request,
        Session.run {} (requests ++ [request]) =
          Session.run {} requests ++ [session.step request] ∧
        (request.goesOn → (session.step request).state.scan.text = scan.text ∧
          scan.cursor ≤ (session.step request).state.scan.cursor) := by
  intro session scan
  obtain ⟨passed, ahead, open?, hstands, hcursor⟩ := (isLeftBy_after d requests).scan
  refine ⟨passed ++ ahead, open?, hstands.whole, hstands.isBoundary, ?_, ?_, fun request => ?_⟩
  · rcases hcursor with hzero | ⟨span, hspan, hstop⟩ | hwidth
    · exact .inl hzero
    · exact .inr (.inl ⟨span, List.mem_append_left ahead hspan, hstop⟩)
    · exact .inr (.inr hwidth)
  · rw [hstands.find?_eq_head?]
    exact finds_of_stands hstands
  · exact ⟨run_append_singleton {} requests request, cursor_le_step hstands⟩

/-- A span that cannot be read is passed all the same. The session is put aside there while another
text is read to its end, and goes back to be stuck at the open span behind. -/
theorem after_stands_between_spans_malformed :
    let requests : List Request := [.bind "[[.]] [[a".toList, .decode, .save,
      .bind "[[b]].".toList, .next, .next]
    let elsewhere : Session .standard := Session.after {} requests
    let session : Session .standard := Session.after {} (requests ++ [.restore])
    elsewhere.scan.cursor = 6 ∧ elsewhere.IsStuck (.ok (.span none)) (.ok (.marker none)) ∧
    session.scan.cursor = 5 ∧
      session.IsStuck (.error (.unterminated 6 "]]".toList))
        (.error (.unterminated 6 "]]".toList)) := by
  intro requests elsewhere session
  have hfinds : ∀ (requests : List Request) (l : Layout) (cursor : Nat), l.IsLeftmost .standard →
      (Session.after ({} : Session .standard) requests).scan = ⟨l.text .standard, cursor⟩ →
      (Session.after ({} : Session .standard) requests).Finds
        ((l.spans .standard).find? fun span => cursor ≤ span.position) (l.open? .standard) := by
    intro requests l cursor hl hscan
    obtain ⟨spans, open?, hspans, -, -, hsearch, -⟩ := after_stands_between_spans .standard requests
    rw [hscan] at hspans hsearch
    obtain ⟨rfl, hend⟩ := decomposition_iff.1 hspans
    rw [hl.spansOf_eq.2] at hend
    obtain rfl := endOf_inj hend
    rw [hl.spansOf_eq.1] at hsearch
    exact hsearch
  have helsewhere : elsewhere.scan = ⟨"[[b]].".toList, 6⟩ := by decide
  have hsession : session.scan = ⟨"[[.]] [[a".toList, 5⟩ := by decide
  have hended := hfinds requests ⟨[⟨[], ['b']⟩], ['.']⟩ 6 (by decide) helsewhere
  have hopen := hfinds (requests ++ [.restore]) ⟨[⟨[], ['.']⟩], " [[a".toList⟩ 5 (by decide)
    hsession
  constructor
  · exact congrArg Scan.cursor helsewhere
  constructor
  · have hend : { elsewhere with scan := ⟨"[[b]].".toList, 6⟩ } = elsewhere := by rw [← helsewhere]
    obtain ⟨-, -, -, hstuck⟩ := hended
    rw [helsewhere] at hstuck
    exact hend ▸ hstuck
  constructor
  · exact congrArg Scan.cursor hsession
  · exact hopen.1

end Session

end Stencil
