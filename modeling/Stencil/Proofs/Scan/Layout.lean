import Stencil.Session
import Stencil.Proofs.Text.Gap

/-! # Layouts of a text

A layout cuts a text into cells, each a gap and the body of the span behind it, and a tail. Exactly
one layout of a text is leftmost, and its spans are what a scan finds. A layout keeps what stands
between the spans, which a decomposition forgets.
-/

namespace Stencil

variable {d : Delimiters}

/-- A gap, and the body of the span behind it. -/
structure Cell where
  gap : Text
  body : Text
deriving DecidableEq, Repr

structure Layout where
  cells : List Cell
  tail : Text
deriving DecidableEq, Repr

def written (d : Delimiters) (cells : List Cell) : Text :=
  cells.flatMap fun cell => cell.gap ++ d.opening ++ cell.body ++ d.closing

namespace Layout

def text (d : Delimiters) (l : Layout) : Text := written d l.cells ++ l.tail

def spans (d : Delimiters) (l : Layout) : List (Span d) :=
  l.cells.mapIdx fun i cell => ⟨(written d (l.cells.take i) ++ cell.gap).width, cell.body⟩

/-- The place of the opening delimiter that nothing closes, if one is left behind the cells. -/
def open? (d : Delimiters) (l : Layout) : Option Nat :=
  (Text.around? d.opening l.tail).map fun found => (written d l.cells ++ found.1).width

end Layout

/-- Neither delimiter begins before the place where the cell has it. -/
def Cell.IsLeftmost (d : Delimiters) (cell : Cell) : Prop :=
  d.opening.IsGap cell.gap ∧ d.closing.IsGap cell.body

/-- No opening delimiter is left, or the first one left has no closing one behind it. -/
def IsTail (d : Delimiters) (tail : Text) : Prop :=
  ¬ d.opening.Occurs tail ∨
    ∃ gap rest, tail = gap ++ d.opening ++ rest ∧ d.opening.IsGap gap ∧ ¬ d.closing.Occurs rest

def Layout.IsLeftmost (d : Delimiters) (l : Layout) : Prop :=
  (∀ cell ∈ l.cells, cell.IsLeftmost d) ∧ IsTail d l.tail

instance (d : Delimiters) (cell : Cell) : Decidable (cell.IsLeftmost d) :=
  inferInstanceAs (Decidable (_ ∧ _))

@[simp] theorem written_nil : written d [] = [] := rfl

theorem written_cons_append (cell : Cell) (cells : List Cell) (rest : Text) :
    written d (cell :: cells) ++ rest =
      cell.gap ++ d.opening ++ (cell.body ++ d.closing ++ (written d cells ++ rest)) := by
  simp [written]

theorem written_append (cells more : List Cell) :
    written d (cells ++ more) = written d cells ++ written d more := by
  simp [written]

theorem isTail_iff_around? {tail : Text} :
    IsTail d tail ↔ ∀ found ∈ Text.around? d.opening tail, ¬ d.closing.Occurs found.2 := by
  constructor
  · rintro (hopening | ⟨gap, rest, heq, hgap, hclosing⟩) found hfound
    · rw [Text.around?_eq_none_iff.2 hopening] at hfound
      cases hfound
    · rw [Text.around?_eq_some_iff.2 ⟨heq, hgap⟩] at hfound
      cases hfound
      exact hclosing
  · intro h
    cases hfound : Text.around? d.opening tail with
    | none => exact .inl (Text.around?_eq_none_iff.1 hfound)
    | some found =>
      rcases Text.around?_eq_some_iff.1 hfound with ⟨heq, hgap⟩
      exact .inr ⟨found.1, found.2, heq, hgap, h found hfound⟩

instance (d : Delimiters) (tail : Text) : Decidable (IsTail d tail) :=
  decidable_of_iff _ isTail_iff_around?.symm

instance (d : Delimiters) (l : Layout) : Decidable (l.IsLeftmost d) :=
  inferInstanceAs (Decidable (_ ∧ _))

theorem not_isTail_of_span {gap body rest : Text} (hgap : d.opening.IsGap gap) :
    ¬ IsTail d (gap ++ d.opening ++ (body ++ d.closing ++ rest)) := by
  rintro (hopening | ⟨gap', rest', heq, hgap', hclosing⟩)
  · exact hopening ⟨gap, _, rfl⟩
  · rcases hgap.eq_of_append_eq hgap' heq with ⟨-, rfl⟩
    exact hclosing ⟨body, rest, rfl⟩

theorem written_append_inj {cells more : List Cell} {tail tail' : Text}
    (hcells : ∀ cell ∈ cells, cell.IsLeftmost d) (hmore : ∀ cell ∈ more, cell.IsLeftmost d)
    (htail : IsTail d tail) (htail' : IsTail d tail')
    (heq : written d cells ++ tail = written d more ++ tail') : cells = more ∧ tail = tail' := by
  induction cells generalizing more with
  | nil =>
    cases more with
    | nil => exact ⟨rfl, heq⟩
    | cons cell more =>
      apply absurd htail
      rw [written_nil, List.nil_append, written_cons_append] at heq
      rw [heq]
      exact not_isTail_of_span (hmore cell (by simp)).1
  | cons cell cells ih =>
    have hcell := hcells cell (by simp)
    rw [written_cons_append] at heq
    cases more with
    | nil =>
      apply absurd htail'
      rw [written_nil, List.nil_append] at heq
      rw [← heq]
      exact not_isTail_of_span hcell.1
    | cons cell' more =>
      have hcell' := hmore cell' (by simp)
      rw [written_cons_append] at heq
      -- the two openings are one, and so are the two closings behind it
      rcases hcell.1.eq_of_append_eq hcell'.1 heq with ⟨hgap, hbehind⟩
      rcases hcell.2.eq_of_append_eq hcell'.2 hbehind with ⟨hbody, hrest⟩
      rcases ih (fun c hc => hcells c (by simp [hc])) (fun c hc => hmore c (by simp [hc])) hrest
        with ⟨rfl, rfl⟩
      cases cell
      cases cell'
      simp_all

theorem Layout.IsLeftmost.eq {l other : Layout} (h : l.IsLeftmost d) (hother : other.IsLeftmost d)
    (heq : l.text d = other.text d) : l = other := by
  rcases l with ⟨cells, tail⟩
  rcases other with ⟨more, tail'⟩
  rcases written_append_inj h.1 hother.1 h.2 hother.2 heq with ⟨rfl, rfl⟩
  rfl

def spansFrom (d : Delimiters) : Nat → List Cell → List (Span d)
  | _, [] => []
  | start, cell :: cells =>
    let span : Span d := ⟨start + cell.gap.width, cell.body⟩
    span :: spansFrom d span.stop cells

theorem stop_add_width (start : Nat) (cell : Cell) (cells : List Cell) :
    Span.stop (d := d) ⟨start + cell.gap.width, cell.body⟩ + (written d cells).width =
      start + (written d (cell :: cells)).width := by
  simp [written, Span.stop]
  omega

theorem spansFrom_eq_mapIdx (start : Nat) (cells : List Cell) :
    spansFrom d start cells =
      cells.mapIdx fun i cell =>
        ⟨start + (written d (cells.take i) ++ cell.gap).width, cell.body⟩ := by
  induction cells generalizing start with
  | nil => rfl
  | cons cell cells ih =>
    rw [spansFrom, List.mapIdx_cons, ih]
    congr 2
    funext i other
    have hstop := stop_add_width (d := d) start cell (cells.take i)
    simp only [List.take_succ_cons, Text.width_append]
    rw [← Nat.add_assoc, ← Nat.add_assoc, hstop]

theorem Layout.spans_eq (l : Layout) : l.spans d = spansFrom d 0 l.cells := by
  simp [spansFrom_eq_mapIdx, Layout.spans]

theorem Decomposition.of_cells {start : Nat} {cells : List Cell} {rest : Text}
    {spans : List (Span d)} {open? : Option Nat} (hcells : ∀ cell ∈ cells, cell.IsLeftmost d)
    (h : Decomposition d (start + (written d cells).width) rest spans open?) :
    Decomposition d start (written d cells ++ rest) (spansFrom d start cells ++ spans) open? := by
  induction cells generalizing start with
  | nil => exact h
  | cons cell cells ih =>
    have hcell := hcells cell (by simp)
    rw [← stop_add_width] at h
    rw [written_cons_append]
    exact .span hcell.1 hcell.2 rfl (ih (fun c hc => hcells c (by simp [hc])) h)

theorem Decomposition.exists_cells {start : Nat} {text : Text} {spans : List (Span d)}
    {open? : Option Nat} (h : Decomposition d start text spans open?) :
    ∃ cells rest, text = written d cells ++ rest ∧ (∀ cell ∈ cells, cell.IsLeftmost d) ∧
      spans = spansFrom d start cells ∧
      Decomposition d (start + (written d cells).width) rest [] open? := by
  induction h with
  | exhausted hopening => exact ⟨[], _, rfl, by simp, rfl, .exhausted hopening⟩
  | unterminated hgap hclosing => exact ⟨[], _, rfl, by simp, rfl, .unterminated hgap hclosing⟩
  | @span start gap body _ _ _ _ hgap hbody hspan _ ih =>
    rcases ih with ⟨cells, rest, rfl, hcells, rfl, hrest⟩
    subst hspan
    refine ⟨⟨gap, body⟩ :: cells, rest,
      (written_cons_append ⟨gap, body⟩ cells rest).symm, ?_, rfl, ?_⟩
    · intro cell hcell
      rcases List.mem_cons.1 hcell with rfl | hcell
      · exact ⟨hgap, hbody⟩
      · exact hcells cell hcell
    · rw [← stop_add_width]
      exact hrest

theorem isTail_of_decomposition {start : Nat} {tail : Text} {open? : Option Nat}
    (h : Decomposition d start tail [] open?) : IsTail d tail := by
  cases h with
  | exhausted hopening => exact .inl hopening
  | unterminated hgap hclosing => exact .inr ⟨_, _, rfl, hgap, hclosing⟩

theorem exists_leftmost (d : Delimiters) (text : Text) :
    ∃ l : Layout, l.text d = text ∧ l.IsLeftmost d := by
  rcases exists_decomposition (d := d) 0 text with ⟨spans, open?, h⟩
  rcases h.exists_cells with ⟨cells, tail, rfl, hcells, -, htail⟩
  exact ⟨⟨cells, tail⟩, rfl, hcells, isTail_of_decomposition htail⟩

theorem Layout.IsLeftmost.decomposition {l : Layout} (h : l.IsLeftmost d) :
    Decomposition d 0 (l.text d) (l.spans d) (l.open? d) := by
  have htail : Decomposition d (0 + (written d l.cells).width) l.tail [] (l.open? d) := by
    rw [Nat.zero_add, Layout.open?]
    rcases h.2 with hopening | ⟨gap, rest, heq, hgap, hclosing⟩
    · rw [Text.around?_eq_none_iff.2 hopening]
      exact .exhausted hopening
    · rw [Text.around?_eq_some_iff.2 ⟨heq, hgap⟩, Option.map_some, Text.width_append, heq]
      exact .unterminated hgap hclosing
  rw [Layout.spans_eq, ← List.append_nil (spansFrom d 0 l.cells)]
  exact .of_cells h.1 htail

theorem Layout.IsLeftmost.spansOf_eq {l : Layout} (h : l.IsLeftmost d) :
    (spansOf d (l.text d)).1 = l.spans d ∧
      (spansOf d (l.text d)).2.result = endOf d (l.open? d) :=
  decomposition_iff.1 h.decomposition

theorem Layout.slice?_of_mem_spans {l : Layout} {span : Span d} (h : span ∈ l.spans d) :
    (l.text d).slice? span.position span.stop = some span.rawText := by
  rw [Layout.spans, List.mem_mapIdx] at h
  rcases h with ⟨i, hi, rfl⟩
  refine Text.slice?_eq_some_iff.2 ⟨written d (l.cells.take i) ++ l.cells[i].gap,
    written d (l.cells.drop (i + 1)) ++ l.tail, ?_, rfl, rfl⟩
  have hcells : l.cells = l.cells.take i ++ l.cells[i] :: l.cells.drop (i + 1) := by simp
  have htext : l.text d = written d (l.cells.take i) ++
      (written d (l.cells[i] :: l.cells.drop (i + 1)) ++ l.tail) := by
    rw [← List.append_assoc, ← written_append, ← hcells, Layout.text]
  rw [htext, written_cons_append]
  simp [Span.rawText]

/-- A session that asks for spans as often as there are some, and once more. -/
theorem Session.run_next_of_decomposition (session : Session d) {ahead : Text}
    {spans : List (Span d)} {open? : Option Nat}
    (h : Decomposition d session.scan.cursor ahead spans open?)
    (hahead : session.scan.ahead? = some ahead) :
    (session.run (List.replicate (spans.length + 1) .next)).map (·.result) =
      spans.map (fun span => .ok (.span (some span))) ++
        [(endOf d open?).map fun _ => .span none] := by
  generalize hstart : session.scan.cursor = start at h
  induction h generalizing session with
  | exhausted hopening =>
    simp [run, step, proceed, Scan.next_of_not_occurs hahead hopening, endOf, Except.map]
  | unterminated hgap hclosing =>
    subst hstart
    simp [run, step, proceed, Scan.next_of_unterminated hahead hgap hclosing, endOf, Except.map]
  | span hgap hbody hspan _ ih =>
    subst hstart hspan
    rw [List.length_cons, List.replicate_succ, run, List.map_cons, List.map_cons,
      List.cons_append]
    have hnext := Scan.next_of_span hahead hgap hbody
    rw [step, proceed, hnext]
    rw [ih _ (Scan.ahead?_of_span hahead) rfl]
    rfl

/-- A scan finds the spans of the one leftmost layout of its text, each with the text that stands at
its place, and ends as the tail of the layout says. So does a session that is bound to the text,
whatever it was used for before. -/
theorem spansOf_leftmost_layout (d : Delimiters) (text : Text) :
    ∃ l : Layout, l.text d = text ∧ l.IsLeftmost d ∧
      (∀ other : Layout, other.text d = text → other.IsLeftmost d → other = l) ∧
      (spansOf d text).1 = l.spans d ∧
      (∀ span ∈ (spansOf d text).1,
        text.slice? span.position (span.position + span.length) = some span.rawText) ∧
      (¬ d.opening.Occurs l.tail ∧ (spansOf d text).2.result = .ok () ∨
        ∃ gap rest, l.tail = gap ++ d.opening ++ rest ∧ d.opening.IsGap gap ∧
          ¬ d.closing.Occurs rest ∧ (spansOf d text).2.result =
            .error (.unterminated (written d l.cells ++ gap).width d.closing)) ∧
      ∀ session : Session d,
        (session.run (.bind text :: List.replicate (l.cells.length + 1) .next)).map (·.result) =
          .ok .done :: (l.spans d).map (fun span => .ok (.span (some span))) ++
            [(spansOf d text).2.result.map fun _ => .span none] := by
  rcases exists_leftmost d text with ⟨l, rfl, hl⟩
  rcases hl.spansOf_eq with ⟨hspans, hend⟩
  refine ⟨l, rfl, hl, fun other heq hother => hother.eq hl heq, hspans, ?_, ?_, ?_⟩
  · intro span hspan
    rw [hspans] at hspan
    exact Layout.slice?_of_mem_spans hspan
  · rw [hend, Layout.open?]
    rcases hl.2 with hopening | ⟨gap, rest, heq, hgap, hclosing⟩
    · rw [Text.around?_eq_none_iff.2 hopening]
      exact .inl ⟨hopening, rfl⟩
    · rw [Text.around?_eq_some_iff.2 ⟨heq, hgap⟩]
      exact .inr ⟨gap, rest, heq, hgap, hclosing, rfl⟩
  · intro session
    have hlength : l.cells.length = (l.spans d).length := by simp [Layout.spans]
    rw [hlength, hend, Session.run, List.map_cons, List.cons_append]
    congr 1
    exact Session.run_next_of_decomposition { session with scan := { text := l.text d } }
      hl.decomposition (Scan.ahead?_eq_some_iff.2 ⟨[], rfl, rfl⟩)

/-- With `aa` and `ab` for delimiters, where one occurrence may overlap the next. -/
theorem spansOf_leftmost_layout_overlapping :
    ∃ d : Delimiters, d.opening = ['a', 'a'] ∧ d.closing = ['a', 'b'] ∧
      (spansOf d ['x', 'a', 'a', 'a', 'a', 'b', 'a', 'a']).1 = [⟨1, ['a']⟩] ∧
      (spansOf d ['x', 'a', 'a', 'a', 'a', 'b', 'a', 'a']).2.result =
        .error (.unterminated 6 ['a', 'b']) := by
  let d : Delimiters := ⟨['a', 'a'], ['a', 'b'], by decide, by decide, by decide⟩
  let l : Layout := ⟨[⟨['x'], ['a']⟩], ['a', 'a']⟩
  rcases spansOf_leftmost_layout d (l.text d) with ⟨found, -, -, hunique, hspans, -, hend, -⟩
  have hfound : l = found := hunique l rfl (by decide)
  subst hfound
  refine ⟨d, rfl, rfl, hspans, ?_⟩
  rcases hend with ⟨hopening, -⟩ | ⟨gap, rest, heq, hgap, -, hend⟩
  · exact absurd (by decide) hopening
  · rcases hgap.eq_of_append_eq (Text.IsGap.nil _) (heq.symm.trans (List.append_nil _).symm)
      with ⟨rfl, -⟩
    exact hend

end Stencil
