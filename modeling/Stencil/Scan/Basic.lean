import Stencil.Text.Location
import Stencil.Outcome

/-! # Delimiters, scans and decompositions

Delimiters are a pair of texts that marks where a span starts and where it stops. Both have
characters and they differ; beyond that they may overlap themselves or each other, or one may
contain the other.

A scan goes through a text from left to right and finds its spans: an opening delimiter, a body, and
the first closing delimiter behind the opening one. Spans do not nest. A span moves the cursor to
its end, a text without a further opening delimiter moves it to the end of the text, and an opening
delimiter without a closing one leaves it where it is.

Which spans a text has is also said without a search: in front of each span stands a gap that no
opening delimiter begins in, and no closing delimiter begins in its body. Behind the last span there
is no opening delimiter, or one that nothing closes. Every text has exactly one such decomposition,
and a scan finds it.
-/

namespace Stencil

structure Delimiters where
  opening : Text
  closing : Text
  opening_ne_nil : opening ≠ []
  closing_ne_nil : closing ≠ []
  opening_ne_closing : opening ≠ closing
deriving DecidableEq

namespace Delimiters

def standard : Delimiters where
  opening := ['[', '[']
  closing := [']', ']']
  opening_ne_nil := by decide
  closing_ne_nil := by decide
  opening_ne_closing := by decide

/-- The delimiters of a pair. An empty one is reported even if both are the same. -/
def ofPair (opening closing : Text) : Except Fault Delimiters :=
  if empty : opening = [] ∨ closing = [] then .error (.invalidDelimiters .emptyDelimiter)
  else if equal : opening = closing then .error (.invalidDelimiters .equalDelimiters)
  else .ok {
    opening, closing
    opening_ne_nil := fun h => empty (.inl h)
    closing_ne_nil := fun h => empty (.inr h)
    opening_ne_closing := equal }

/-- The characters that no path segment and no function name may hold. -/
def reserved (d : Delimiters) : Text := d.opening ++ d.closing

theorem ofPair_eq_ok_iff {opening closing : Text} {d : Delimiters} :
    ofPair opening closing = .ok d ↔ d.opening = opening ∧ d.closing = closing := by
  unfold ofPair
  constructor
  · split
    · simp
    · split
      · simp
      · rintro h
        cases h
        exact ⟨rfl, rfl⟩
  · rintro ⟨rfl, rfl⟩
    rw [dif_neg (by simp [d.opening_ne_nil, d.closing_ne_nil]), dif_neg d.opening_ne_closing]

theorem opening_width_pos (d : Delimiters) : 0 < d.opening.width :=
  Text.width_pos d.opening_ne_nil

end Delimiters

/-- A text between two delimiters, and the bytes in front of the opening one. -/
structure Span (d : Delimiters) where
  position : Nat
  body : Text
deriving DecidableEq

namespace Span

variable {d : Delimiters}

def rawText (span : Span d) : Text := d.opening ++ span.body ++ d.closing

def length (span : Span d) : Nat := span.rawText.width

def bodyStart (span : Span d) : Nat := span.position + d.opening.width

def stop (span : Span d) : Nat := span.position + span.length

@[simp] theorem length_eq (span : Span d) :
    span.length = d.opening.width + span.body.width + d.closing.width := by
  simp [length, rawText, Nat.add_assoc]

end Span

/-- A text, and how many of its bytes are done with. -/
structure Scan (d : Delimiters) where
  text : Text := []
  cursor : Nat := 0
deriving DecidableEq

namespace Scan

variable {d : Delimiters}

/-- What is still to be searched, if the cursor is a boundary of the text. -/
def ahead? (scan : Scan d) : Option Text := (scan.text.cut? scan.cursor).map (·.2)

def remaining (scan : Scan d) : Nat := scan.text.width - scan.cursor

/-- The next span, or `none` behind the last one. From inside a character nothing is found. -/
def next (scan : Scan d) : Outcome Fault (Scan d) (Option (Span d)) :=
  match scan.ahead?.bind (Text.around? d.opening) with
  | none => {
      result := .ok none
      state := { scan with cursor := scan.text.width }
      events := [.exhausted scan.cursor] }
  | some (gap, behind) =>
    match Text.around? d.closing behind with
    | none => {
        result := .error (.unterminated (scan.cursor + gap.width) d.closing)
        state := scan }
    | some (body, _) =>
      let span : Span d := { position := scan.cursor + gap.width, body }
      { result := .ok (some span)
        state := { scan with cursor := span.stop }
        events := [.matched span.position span.length span.rawText] }

theorem ahead?_eq_some_iff {scan : Scan d} {ahead : Text} :
    scan.ahead? = some ahead ↔
      ∃ done, scan.text = done ++ ahead ∧ done.width = scan.cursor := by
  simp [ahead?, Text.cut?_eq_some_iff]

theorem next_of_not_occurs {scan : Scan d} {ahead : Text} (h : scan.ahead? = some ahead)
    (hopening : ¬ d.opening.Occurs ahead) :
    scan.next = ⟨.ok none, { scan with cursor := scan.text.width }, [.exhausted scan.cursor]⟩ := by
  rw [next, h, Option.bind_some, Text.around?_eq_none_iff.2 hopening]

theorem next_of_unterminated {scan : Scan d} {gap rest : Text}
    (h : scan.ahead? = some (gap ++ d.opening ++ rest)) (hgap : d.opening.IsGap gap)
    (hclosing : ¬ d.closing.Occurs rest) :
    scan.next = ⟨.error (.unterminated (scan.cursor + gap.width) d.closing), scan, []⟩ := by
  rw [next, h, Option.bind_some, Text.around?_eq_some_iff.2 ⟨rfl, hgap⟩]
  simp only [Text.around?_eq_none_iff.2 hclosing]

theorem next_of_span {scan : Scan d} {gap body rest : Text}
    (h : scan.ahead? = some (gap ++ d.opening ++ (body ++ d.closing ++ rest)))
    (hgap : d.opening.IsGap gap) (hbody : d.closing.IsGap body) :
    let span : Span d := { position := scan.cursor + gap.width, body }
    scan.next = ⟨.ok (some span), { scan with cursor := span.stop },
      [.matched span.position span.length span.rawText]⟩ := by
  intro span
  rw [next, h, Option.bind_some, Text.around?_eq_some_iff.2 ⟨rfl, hgap⟩]
  simp only [Text.around?_eq_some_iff.2 ⟨rfl, hbody⟩, span]

theorem ahead?_of_span {scan : Scan d} {gap body rest : Text}
    (h : scan.ahead? = some (gap ++ d.opening ++ (body ++ d.closing ++ rest))) :
    let span : Span d := { position := scan.cursor + gap.width, body }
    ahead? ({ scan with cursor := span.stop } : Scan d) = some rest := by
  intro span
  obtain ⟨done, htext, hdone⟩ := ahead?_eq_some_iff.1 h
  exact ahead?_eq_some_iff.2 ⟨done ++ (gap ++ d.opening ++ (body ++ d.closing)),
    by simp [htext], by simp [span, Span.stop, hdone, Nat.add_assoc]⟩

/-- What is ahead has no opening delimiter, or one without a closing one, or a span. -/
theorem ahead_cases (ahead : Text) :
    ¬ d.opening.Occurs ahead ∨
    (∃ gap rest, ahead = gap ++ d.opening ++ rest ∧ d.opening.IsGap gap ∧
      ¬ d.closing.Occurs rest) ∨
    ∃ gap body rest, ahead = gap ++ d.opening ++ (body ++ d.closing ++ rest) ∧
      d.opening.IsGap gap ∧ d.closing.IsGap body := by
  cases hopening : Text.around? d.opening ahead with
  | none => exact .inl (Text.around?_eq_none_iff.1 hopening)
  | some found =>
    obtain ⟨gap, behind⟩ := found
    obtain ⟨rfl, hgap⟩ := Text.around?_eq_some_iff.1 hopening
    cases hclosing : Text.around? d.closing behind with
    | none => exact .inr (.inl ⟨gap, behind, rfl, hgap, Text.around?_eq_none_iff.1 hclosing⟩)
    | some found =>
      obtain ⟨body, rest⟩ := found
      obtain ⟨rfl, hbody⟩ := Text.around?_eq_some_iff.1 hclosing
      exact .inr (.inr ⟨gap, body, rest, rfl, hgap, hbody⟩)

theorem next_eq_some {scan next : Scan d} {span : Span d} {events : List Event}
    (h : scan.next = ⟨.ok (some span), next, events⟩) :
    ∃ done gap rest, scan.text = done ++ gap ++ span.rawText ++ rest ∧
      done.width = scan.cursor ∧ span.position = scan.cursor + gap.width ∧
      next = { scan with cursor := span.stop } := by
  unfold Scan.next at h
  split at h
  · simp at h
  · next gap behind hopen =>
    split at h
    · simp at h
    · next body rest hclose =>
      simp only [ahead?, Option.bind_eq_some_iff, Option.map_eq_some_iff, Prod.exists] at hopen
      obtain ⟨ahead, ⟨done, _, hcut, rfl⟩, hgap⟩ := hopen
      obtain ⟨htext, hdone⟩ := Text.cut?_eq_some_iff.1 hcut
      have hahead := Text.eq_of_around? hgap
      have hbehind := Text.eq_of_around? hclose
      simp only [Outcome.mk.injEq, Except.ok.injEq, Option.some.injEq] at h
      obtain ⟨rfl, rfl, -⟩ := h
      exact ⟨done, gap, rest, by simp [htext, hahead, hbehind, Span.rawText], hdone, rfl, rfl⟩

theorem length_add_remaining_le {scan next : Scan d} {span : Span d} {events : List Event}
    (h : scan.next = ⟨.ok (some span), next, events⟩) :
    span.length + next.remaining ≤ scan.remaining := by
  obtain ⟨done, gap, rest, htext, hdone, hposition, rfl⟩ := next_eq_some h
  have hwidth : scan.text.width =
      scan.cursor + gap.width + span.length + rest.width := by
    rw [htext, ← hdone]
    simp [Span.rawText]
    omega
  simp only [remaining, Span.stop, hposition, hwidth]
  omega

theorem remaining_lt_of_next {scan next : Scan d} {span : Span d} {events : List Event}
    (h : scan.next = ⟨.ok (some span), next, events⟩) : next.remaining < scan.remaining := by
  have hlength := length_add_remaining_le h
  have hopening := d.opening_width_pos
  rw [Span.length_eq] at hlength
  omega

/-- Every span of what is ahead, and how the search ended. -/
def spans (scan : Scan d) : List (Span d) × Outcome Fault (Scan d) Unit :=
  Outcome.drain next remaining (fun _ _ _ _ h => remaining_lt_of_next h) scan

end Scan

def spansOf (d : Delimiters) (text : Text) : List (Span d) × Outcome Fault (Scan d) Unit :=
  Scan.spans { text }

variable {d : Delimiters}

/-- The spans of a text that starts at `start`, and where an opening delimiter that nothing closes
stands behind them, if there is one. -/
inductive Decomposition (d : Delimiters) : Nat → Text → List (Span d) → Option Nat → Prop where
  | exhausted {start : Nat} {rest : Text} :
      ¬ d.opening.Occurs rest → Decomposition d start rest [] none
  | unterminated {start : Nat} {gap rest : Text} :
      d.opening.IsGap gap → ¬ d.closing.Occurs rest →
      Decomposition d start (gap ++ d.opening ++ rest) [] (some (start + gap.width))
  | span {start : Nat} {gap body rest : Text} {span : Span d} {spans : List (Span d)}
      {open? : Option Nat} :
      d.opening.IsGap gap → d.closing.IsGap body → span = ⟨start + gap.width, body⟩ →
      Decomposition d span.stop rest spans open? →
      Decomposition d start (gap ++ d.opening ++ (body ++ d.closing ++ rest)) (span :: spans) open?

/-- How a search ends: an opening delimiter that nothing closes is a fault. -/
def endOf (d : Delimiters) : Option Nat → Except Fault Unit
  | none => .ok ()
  | some position => .error (.unterminated position d.closing)

theorem Scan.spans_of_decomposition {scan : Scan d} {ahead : Text} {spans : List (Span d)}
    {open? : Option Nat} (h : Decomposition d scan.cursor ahead spans open?)
    (hahead : scan.ahead? = some ahead) :
    scan.spans.1 = spans ∧ scan.spans.2.result = endOf d open? := by
  generalize hstart : scan.cursor = start at h
  induction h generalizing scan with
  | exhausted hopening =>
    rw [Scan.spans, Outcome.drain_of_none (next_of_not_occurs hahead hopening)]
    exact ⟨rfl, rfl⟩
  | unterminated hgap hclosing =>
    subst hstart
    rw [Scan.spans, Outcome.drain_of_error (next_of_unterminated hahead hgap hclosing)]
    exact ⟨rfl, rfl⟩
  | span hgap hbody hspan _ ih =>
    subst hstart hspan
    have hlater := ih (ahead?_of_span hahead) rfl
    rw [Scan.spans, Outcome.drain_of_some (next_of_span hahead hgap hbody)]
    exact ⟨congrArg _ hlater.1, hlater.2⟩

theorem exists_decomposition (start : Nat) (text : Text) :
    ∃ spans open?, Decomposition d start text spans open? := by
  induction hlen : text.length using Nat.strongRecOn generalizing start text with
  | ind n ih =>
    rcases Scan.ahead_cases (d := d) text with h | ⟨gap, rest, rfl, hgap, hrest⟩ |
      ⟨gap, body, rest, rfl, hgap, hbody⟩
    · exact ⟨_, _, .exhausted h⟩
    · exact ⟨_, _, .unterminated hgap hrest⟩
    · have hopening := List.length_pos_iff.2 d.opening_ne_nil
      obtain ⟨spans, open?, h⟩ := ih rest.length (by simp at hlen; omega)
        (Span.stop (d := d) ⟨start + gap.width, body⟩) rest rfl
      exact ⟨_, _, .span hgap hbody rfl h⟩

theorem endOf_inj {open? last? : Option Nat} (h : endOf d open? = endOf d last?) :
    open? = last? := by
  cases open? <;> cases last? <;> simp_all [endOf]

/-- A scan finds the decomposition of its text and no other. -/
theorem decomposition_iff {text : Text} {spans : List (Span d)} {open? : Option Nat} :
    Decomposition d 0 text spans open? ↔
      (spansOf d text).1 = spans ∧ (spansOf d text).2.result = endOf d open? := by
  have hahead : Scan.ahead? ({ text } : Scan d) = some text :=
    Scan.ahead?_eq_some_iff.2 ⟨[], rfl, rfl⟩
  constructor
  · exact fun h => Scan.spans_of_decomposition h hahead
  · rintro ⟨rfl, hend⟩
    obtain ⟨spans, last?, h⟩ := exists_decomposition (d := d) 0 text
    obtain ⟨hspans, hend'⟩ := Scan.spans_of_decomposition h hahead
    rw [endOf_inj (hend.symm.trans hend'), spansOf, hspans]
    exact h

end Stencil
