import Stencil.Proofs.Body.Canonical
import Stencil.Proofs.Scan.Markers
import Stencil.Proofs.Splice

/-! # Texts one behind the other

What a text holds does not depend on where it stands, and text that is added behind it takes no span
away. So the markers of two texts one behind the other are those of the first and, moved by its
width, those of the second, unless an opening delimiter comes about where the texts meet.
-/

namespace Stencil

def Marker.shift (n : Nat) (marker : Marker) : Marker :=
  { marker with position := marker.position + n }

def Fault.shift (n : Nat) : Fault → Fault
  | .unterminated position closing => .unterminated (position + n) closing
  | .malformed rawText position offset reason =>
    .malformed rawText (position + n) (offset + n) reason
  | .invalidDelimiters reason => .invalidDelimiters reason
  | .unspliceable position reason => .unspliceable (position + n) reason

variable {d : Delimiters}

def Span.shift (n : Nat) (span : Span d) : Span d := { span with position := span.position + n }

theorem Span.stop_shift (n : Nat) (span : Span d) : (span.shift n).stop = span.stop + n := by
  simp only [Span.stop, Span.length_eq, Span.shift]
  omega

theorem Span.marker_shift (n : Nat) (span : Span d) :
    (span.shift n).marker = (span.marker.map (Marker.shift n)).mapError (Fault.shift n) := by
  have hdecode : (span.shift n).decode = span.decode.map (Marker.shift n) := by
    simp only [Span.decode, Span.shift, Span.rawText, Span.length]
    cases Body.parse span.body d.reserved <;> rfl
  rw [Span.marker, Span.marker, hdecode]
  cases span.decode with
  | error fault =>
    have hfault : (span.shift n).fault fault = (span.fault fault).shift n := by
      simp only [Span.fault, Span.shift, Fault.shift, Span.rawText, Span.bodyStart]
      congr 1
      omega
    exact congrArg Except.error hfault
  | ok marker => rfl

theorem mapM_marker_shift (n : Nat) (spans : List (Span d)) :
    (spans.map (Span.shift n)).mapM Span.marker =
      ((spans.mapM Span.marker).map (List.map (Marker.shift n))).mapError (Fault.shift n) := by
  induction spans with
  | nil => rfl
  | cons span spans ih =>
    rw [List.map_cons, List.mapM_cons, List.mapM_cons, ih, Span.marker_shift]
    cases span.marker with
    | error fault => rfl
    | ok marker => cases spans.mapM Span.marker <;> rfl

theorem endOf_shift (n : Nat) (open? : Option Nat) :
    endOf d (open?.map (· + n)) = (endOf d open?).mapError (Fault.shift n) := by
  cases open? <;> rfl

/-- A text has the same spans wherever it stands. -/
theorem Decomposition.shift (n : Nat) {start : Nat} {text : Text} {spans : List (Span d)}
    {open? : Option Nat} (h : Decomposition d start text spans open?) :
    Decomposition d (start + n) text (spans.map (Span.shift n)) (open?.map (· + n)) := by
  induction h with
  | exhausted hopening => exact .exhausted hopening
  | @unterminated start gap rest hgap hclosing =>
    rw [Option.map_some, Nat.add_right_comm]
    exact .unterminated hgap hclosing
  | @span start gap body rest span spans open? hgap hbody hspan _ ih =>
    rw [List.map_cons]
    rw [← Span.stop_shift] at ih
    refine .span hgap hbody ?_ ih
    rw [hspan, Span.shift, Nat.add_right_comm]

/-- No opening delimiter begins in `lead` when `text` stands behind it. -/
def IsClear (d : Delimiters) (lead text : Text) : Prop :=
  ∀ shorter, shorter ++ d.opening <+: lead ++ text → lead.length ≤ shorter.length

theorem IsClear.exists_of_append {lead text before after : Text} (h : IsClear d lead text)
    (heq : lead ++ text = before ++ d.opening ++ after) :
    ∃ later, before = lead ++ later ∧ text = later ++ d.opening ++ after := by
  have hlength := h before ⟨after, heq.symm⟩
  have hprefix : lead <+: before :=
    List.prefix_of_prefix_length_le (List.prefix_append lead text)
      ⟨d.opening ++ after, by rw [heq, List.append_assoc]⟩ hlength
  obtain ⟨later, rfl⟩ := hprefix
  refine ⟨later, rfl, ?_⟩
  rw [List.append_assoc, List.append_assoc] at heq
  rw [List.append_cancel_left heq, List.append_assoc]

theorem IsClear.isGap {lead gap rest : Text} (h : IsClear d lead (gap ++ d.opening ++ rest))
    (hgap : d.opening.IsGap gap) : d.opening.IsGap (lead ++ gap) := by
  apply (Text.isGap_iff_append rest).2
  rintro shorter ⟨after, hafter⟩
  have heq : lead ++ (gap ++ d.opening ++ rest) = shorter ++ d.opening ++ after := by
    rw [hafter]
    simp
  obtain ⟨later, rfl, hlater⟩ := h.exists_of_append heq
  have hlength := (Text.isGap_iff_append rest).1 hgap later ⟨after, hlater.symm⟩
  simpa using hlength

/-- A text in front of which no opening delimiter begins has the spans that it has alone. -/
theorem Decomposition.behind {lead text : Text} {start : Nat} {spans : List (Span d)}
    {open? : Option Nat} (hclear : IsClear d lead text)
    (h : Decomposition d (start + lead.width) text spans open?) :
    Decomposition d start (lead ++ text) spans open? := by
  cases h with
  | exhausted hopening =>
    apply Decomposition.exhausted
    rintro ⟨before, after, heq⟩
    obtain ⟨later, -, htext⟩ := hclear.exists_of_append heq
    exact hopening ⟨later, after, htext⟩
  | @unterminated _ gap rest hgap hclosing =>
    rw [Nat.add_assoc, ← Text.width_append, ← List.append_assoc, ← List.append_assoc]
    exact .unterminated (hclear.isGap hgap) hclosing
  | @span _ gap body rest span spans _ hgap hbody hspan hrest =>
    have hassoc : lead ++ (gap ++ d.opening ++ (body ++ d.closing ++ rest)) =
        lead ++ gap ++ d.opening ++ (body ++ d.closing ++ rest) := by simp
    rw [hassoc]
    refine .span (hclear.isGap hgap) hbody ?_ hrest
    rw [hspan, Text.width_append, Nat.add_assoc]

/-- Of all places at or behind `place` where the mark occurs in the two texts together, none is in
the first text and reaches into the second. -/
def Text.MeetsApart (mark : Text) (place : Nat) (a b : Text) : Prop :=
  ∀ before after, a ++ b = before ++ mark ++ after → place ≤ before.width →
    before.width < a.width → (before ++ mark).width ≤ a.width

theorem Text.meetsApart_iff {mark a b : Text} {place : Nat} :
    mark.MeetsApart place a b ↔ ∀ n < a.length, mark <+: a.drop n ++ b →
      place ≤ width (a.take n) → width (a.take n ++ mark) ≤ a.width := by
  have hcut : ∀ n, a = a.take n ++ a.drop n := fun n => (List.take_append_drop n a).symm
  constructor
  · rintro h n hn ⟨after, hafter⟩ hplace
    refine h (a.take n) after ?_ hplace ?_
    · rw [List.append_assoc, hafter, ← List.append_assoc, ← hcut n]
    · have hrest : 0 < width (a.drop n) := Text.width_pos (by simpa using hn)
      have hwidth := congrArg Text.width (hcut n)
      rw [Text.width_append] at hwidth
      omega
  · intro h before after heq hplace hwidth
    rw [List.append_assoc] at heq
    obtain ⟨between, rfl, hafter⟩ := Text.exists_between heq (Nat.le_of_lt hwidth)
    have hn : before.length < (before ++ between).length := by
      cases between with
      | nil => simp at hwidth
      | cons c between => simp
    have hmark := h before.length hn ⟨after, by simp [hafter]⟩ (by simpa using hplace)
    simpa using hmark

instance (mark : Text) (place : Nat) (a b : Text) : Decidable (mark.MeetsApart place a b) :=
  decidable_of_iff _ Text.meetsApart_iff.symm

theorem isClear_of_meetsApart {cells : List Cell} {rest b : Text}
    (hrest : ¬ d.opening.Occurs rest)
    (h : d.opening.MeetsApart (written d cells).width (written d cells ++ rest) b) :
    IsClear d rest b := by
  rintro shorter ⟨after, heq⟩
  apply Nat.le_of_not_lt
  intro hlt
  have hshorter : shorter <+: rest :=
    List.prefix_of_prefix_length_le ⟨d.opening ++ after, by rw [← heq, List.append_assoc]⟩
      (List.prefix_append rest b) (Nat.le_of_lt hlt)
  obtain ⟨more, rfl⟩ := hshorter
  have hmore : 0 < Text.width more := by
    apply Text.width_pos
    rintro rfl
    simp at hlt
  -- the occurrence ends in the first text, so it is one of what stands behind the cells
  have hend := h (written d cells ++ shorter) after (by rw [List.append_assoc, ← heq]; simp)
    (by simp) (by simp; omega)
  obtain ⟨between, hbetween, -⟩ := Text.exists_between (heq.symm) (by simpa using hend)
  exact hrest ⟨shorter, between, hbetween⟩

theorem stopOf_spansFrom {start : Nat} {cells : List Cell} {markers : List Marker}
    (h : (spansFrom d start cells).mapM Span.marker = .ok markers) :
    stopOf start markers = start + (written d cells).width := by
  induction cells generalizing start markers with
  | nil =>
    cases h
    rfl
  | cons cell cells ih =>
    obtain ⟨marker, more, hmarker, hmore, rfl⟩ := mapM_cons_eq_ok_iff.1 h
    rw [stopOf_cons, Span.stop_of_marker_eq_ok hmarker, ih hmore, stop_add_width]

theorem mapM_append_of_ok {spans more : List (Span d)} {markers : List Marker}
    (h : spans.mapM Span.marker = .ok markers) :
    (spans ++ more).mapM Span.marker = (more.mapM Span.marker).map (markers ++ ·) := by
  rw [List.mapM_append, h]
  cases more.mapM Span.marker <;> rfl

theorem mapM_append_of_error {spans more : List (Span d)} {fault : Fault}
    (h : spans.mapM Span.marker = .error fault) :
    (spans ++ more).mapM Span.marker = .error fault := by
  rw [List.mapM_append, h]
  rfl

/-- The markers of two texts together are those of the first and, moved by its width, those of the
second or the fault of the second, if no opening delimiter comes about where the texts meet. A body
that cannot be read is the fault of the first text whatever follows. -/
theorem markersOf_append (d : Delimiters) (a b : Text) :
    (∀ markers, (markersOf d a).result = .ok markers →
      d.opening.MeetsApart (stopOf 0 markers) a b →
      (markersOf d (a ++ b)).result =
        ((markersOf d b).result.map fun more => markers ++ more.map (Marker.shift a.width)).mapError
          (Fault.shift a.width)) ∧
    ∀ rawText position offset reason,
      (markersOf d a).result = .error (.malformed rawText position offset reason) →
      (markersOf d (a ++ b)).result = .error (.malformed rawText position offset reason) := by
  obtain ⟨spans, open?, hspans⟩ := exists_decomposition (d := d) 0 a
  obtain ⟨cells, rest, rfl, hcells, rfl, hrest⟩ := hspans.exists_cells
  refine ⟨fun markers hmarkers hmeets => ?_, fun rawText position offset reason hfault => ?_⟩
  · obtain ⟨hfound, rfl⟩ := hspans.markersOf_eq_ok_iff.1 hmarkers
    obtain ⟨spansb, openb?, hspansb⟩ := exists_decomposition (d := d) 0 b
    rw [stopOf_spansFrom hfound, Nat.zero_add] at hmeets
    have hclear : IsClear d rest b := by
      cases hrest with
      | exhausted hopening => exact isClear_of_meetsApart hopening hmeets
    have hmoved := hspansb.shift (written d cells ++ rest).width
    rw [Text.width_append, ← Nat.add_assoc] at hmoved
    have hwhole := Decomposition.of_cells hcells (hmoved.behind hclear)
    rw [← List.append_assoc, ← Text.width_append] at hwhole
    rw [hwhole.result_markersOf, hspansb.result_markersOf, mapM_append_of_ok hfound,
      mapM_marker_shift, endOf_shift]
    cases spansb.mapM Span.marker with
    | error fault => rfl
    | ok more => cases endOf d openb? <;> rfl
  · have hfound : (spansFrom d 0 cells).mapM Span.marker =
        .error (.malformed rawText position offset reason) := by
      rw [hspans.result_markersOf] at hfault
      rcases bind_eq_error_iff.1 hfault with hfound | ⟨markers, -, hend⟩
      · exact hfound
      · cases open? <;> cases hend
    obtain ⟨more, last?, hmore⟩ :=
      exists_decomposition (d := d) (0 + (written d cells).width) (rest ++ b)
    have hwhole := Decomposition.of_cells hcells hmore
    rw [← List.append_assoc] at hwhole
    rw [hwhole.result_markersOf, mapM_append_of_error hfound]
    rfl

/-- One bracket on each side of the place where the texts meet, and a faulty body in front of it. -/
theorem markersOf_append_brackets :
    (markersOf .standard ("[[x]] [".toList ++ "][[y]]".toList)).result = .ok [
      ⟨⟨[['x']], []⟩, "[[x]]".toList, 0, 5⟩, ⟨⟨[['y']], []⟩, "[[y]]".toList, 8, 5⟩] ∧
    (markersOf .standard ("[[.]] [[".toList ++ "x]]".toList)).result =
      .error (.malformed "[[.]]".toList 0 2 (.expected [.identifier])) := by
  let first : Layout := ⟨[⟨[], ['x']⟩], " [".toList⟩
  let second : Layout := ⟨[⟨[']'], ['y']⟩], []⟩
  let faulty : Layout := ⟨[⟨[], ['.']⟩], " [[".toList⟩
  have hfirst : first.IsLeftmost .standard := by decide
  have hsecond : second.IsLeftmost .standard := by decide
  have hfaulty : faulty.IsLeftmost .standard := by decide
  have hbodies (c : Char) (hc : Body.IsCanonical "[[]]".toList ⟨[[c]], []⟩) :
      [Body.parse [c] "[[]]".toList] = [⟨[[c]], []⟩].map .ok :=
    congrArg (fun r => [r]) hc.parse_text
  have hx : (markersOf .standard (first.text .standard)).result =
      .ok [⟨⟨[['x']], []⟩, "[[x]]".toList, 0, 5⟩] :=
    hfirst.markersOf_eq (hbodies 'x' (by decide)) rfl
  have hy : (markersOf .standard (second.text .standard)).result =
      .ok [⟨⟨[['y']], []⟩, "[[y]]".toList, 1, 5⟩] :=
    hsecond.markersOf_eq (hbodies 'y' (by decide)) rfl
  have hfault : (markersOf .standard (faulty.text .standard)).result =
      .error (.malformed "[[.]]".toList 0 2 (.expected [.identifier])) :=
    hfaulty.decomposition.result_markersOf
  refine ⟨?_, (markersOf_append .standard _ "x]]".toList).2 _ _ _ _ hfault⟩
  have happend := (markersOf_append .standard _ (second.text .standard)).1 _ hx (by decide)
  rw [hy] at happend
  exact happend

end Stencil
