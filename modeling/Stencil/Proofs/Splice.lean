import Stencil.Splice
import Stencil.Proofs.Traversal

/-! # Texts with markers replaced

Whether a marker fits is a question about the whole text and the end of the marker before it. A
splice goes through its markers until one does not fit or the caller has no text for one. If neither
happens, the result is put together from slices of the text and the caller's answers, whatever
markers were given.
-/

namespace Stencil

/-- What is wrong with the marker if the text in front of `cursor` is done with. That it starts too
early is said first. -/
def Marker.fault? (text : Text) (cursor : Nat) (marker : Marker) : Option Fault :=
  if marker.position < cursor then some (.unspliceable marker.position .outOfOrder)
  else if text.slice? marker.position (marker.position + marker.length) = some marker.rawText then
    none
  else some (.unspliceable marker.position .mismatch)

def stopOf (cursor : Nat) (markers : List Marker) : Nat :=
  (markers.map Marker.stop).getLastD cursor

/-- Nothing is wrong with any marker when the one before it is done with. -/
def Fit (text : Text) (cursor : Nat) (markers : List Marker) : Prop :=
  ∀ before marker after, markers = before ++ marker :: after →
    marker.fault? text (stopOf cursor before) = none

/-- The text from `cursor` on with each marker replaced by the text beside it. All else is made of
slices. -/
def assembled (text : Text) (cursor : Nat) : List (Marker × Text) → Option Text
  | [] => text.slice? cursor text.width
  | (marker, replacement) :: more => do
    let between ← text.slice? cursor marker.position
    let behind ← assembled text marker.stop more
    return between ++ replacement ++ behind

section Fit

variable {text done ahead : Text} {cursor : Nat} {marker : Marker} {markers : List Marker}

@[simp] theorem stopOf_nil (cursor : Nat) : stopOf cursor [] = cursor := rfl

@[simp] theorem stopOf_cons (cursor : Nat) (marker : Marker) (markers : List Marker) :
    stopOf cursor (marker :: markers) = stopOf marker.stop markers := by
  rw [stopOf, List.map_cons, List.getLastD_cons, stopOf]

theorem fit_nil (text : Text) (cursor : Nat) : Fit text cursor [] := by
  intro before marker after h
  simp at h

theorem fit_cons_iff :
    Fit text cursor (marker :: markers) ↔
      marker.fault? text cursor = none ∧ Fit text marker.stop markers := by
  constructor
  · intro h
    refine ⟨h [] marker markers rfl, fun before later after heq => ?_⟩
    have hlater := h (marker :: before) later after (by rw [heq, List.cons_append])
    simpa using hlater
  · rintro ⟨hmarker, hmarkers⟩ before later after heq
    cases before with
    | nil =>
      cases heq
      exact hmarker
    | cons first before =>
      cases heq
      rw [stopOf_cons]
      exact hmarkers before later after rfl

theorem Fit.of_append {more : List Marker} (h : Fit text cursor (markers ++ more)) :
    Fit text cursor markers := by
  intro before marker after heq
  exact h before marker (after ++ more) (by simp [heq])

theorem fit_or_exists_fault? (text : Text) (cursor : Nat) (markers : List Marker) :
    Fit text cursor markers ∨
      ∃ before marker after fault, markers = before ++ marker :: after ∧ Fit text cursor before ∧
        marker.fault? text (stopOf cursor before) = some fault := by
  induction markers generalizing cursor with
  | nil => exact .inl (fit_nil text cursor)
  | cons marker markers ih =>
    cases hmarker : marker.fault? text cursor with
    | some fault => exact .inr ⟨[], marker, markers, fault, rfl, fit_nil text cursor, hmarker⟩
    | none =>
      rcases ih marker.stop with hfit | ⟨before, later, after, fault, heq, hfit, hfault⟩
      · exact .inl (fit_cons_iff.2 ⟨hmarker, hfit⟩)
      · refine .inr ⟨marker :: before, later, after, fault, ?_, fit_cons_iff.2 ⟨hmarker, hfit⟩, ?_⟩
        · rw [heq, List.cons_append]
        · rwa [stopOf_cons]

end Fit

namespace Marker

variable {text done ahead : Text} {cursor : Nat} {marker : Marker}

theorem fault?_eq_none_iff :
    marker.fault? text cursor = none ↔
      cursor ≤ marker.position ∧
        text.slice? marker.position (marker.position + marker.length) = some marker.rawText := by
  unfold fault?
  split
  · next hlt =>
    simp only [reduceCtorEq, false_iff, not_and]
    omega
  · next hle =>
    split
    · next hslice => simp [hslice, Nat.le_of_not_lt hle]
    · next hslice => simp [hslice]

theorem carve_of_fault?_eq_none (htext : text = done ++ ahead) (hdone : done.width = cursor)
    (h : marker.fault? text cursor = none) :
    ∃ between behind, marker.carve cursor ahead = .ok (between, behind) ∧
      text.slice? cursor marker.position = some between ∧
      text = done ++ between ++ marker.rawText ++ behind ∧
      (done ++ between ++ marker.rawText).width = marker.stop := by
  obtain ⟨hcursor, hslice⟩ := fault?_eq_none_iff.1 h
  obtain ⟨before, behind, hmarker, hposition, hlength⟩ := Text.slice?_eq_some_iff.1 hslice
  have hsplit : before ++ (marker.rawText ++ behind) = done ++ ahead := by
    rw [← List.append_assoc, ← hmarker, htext]
  obtain ⟨between, rfl, rfl⟩ := Text.exists_between hsplit (by omega)
  have hbetween : cursor + between.width = marker.position := by
    rw [← hposition, Text.width_append, hdone]
  refine ⟨between, behind, ?_, ?_, hmarker, ?_⟩
  · exact carve_eq_ok_iff.2 ⟨hbetween.symm, by omega, by simp⟩
  · exact Text.slice?_eq_some_iff.2 ⟨done, marker.rawText ++ behind, by simp [hmarker], hdone,
      hbetween⟩
  · rw [Text.width_append, hposition, hlength, stop]

theorem carve_of_fault?_eq_some (htext : text = done ++ ahead) (hdone : done.width = cursor)
    {fault : Fault} (h : marker.fault? text cursor = some fault) :
    marker.carve cursor ahead = .error fault := by
  unfold fault? at h
  split at h
  · next hlt =>
    cases h
    rw [carve, if_pos hlt]
  · next hle =>
    split at h
    · cases h
    · next hslice =>
      cases h
      rw [carve, if_neg hle]
      split
      · next between behind haround =>
        -- what stands around the marker would make the slice
        obtain ⟨hbetween, hlength, rfl⟩ := around?_eq_some_iff.1 haround
        apply absurd _ hslice
        exact Text.slice?_eq_some_iff.2 ⟨done ++ between, behind, by simp [htext],
          by rw [Text.width_append]; omega, by omega⟩
      · rfl

end Marker

section Fit

variable {text done ahead : Text} {cursor : Nat} {markers : List Marker}

theorem Fit.le_position (h : Fit text cursor markers) :
    ∀ marker ∈ markers, cursor ≤ marker.position := by
  induction markers generalizing cursor with
  | nil => simp
  | cons first markers ih =>
    obtain ⟨hfirst, hmarkers⟩ := fit_cons_iff.1 h
    have hcursor := (Marker.fault?_eq_none_iff.1 hfirst).1
    intro marker hmarker
    rcases List.mem_cons.1 hmarker with rfl | hmarker
    · exact hcursor
    · have hlater := ih hmarkers marker hmarker
      rw [Marker.stop] at hlater
      omega

theorem Fit.pairwise (h : Fit text cursor markers) :
    markers.Pairwise fun earlier later => earlier.stop ≤ later.position := by
  induction markers generalizing cursor with
  | nil => exact .nil
  | cons first markers ih =>
    obtain ⟨-, hmarkers⟩ := fit_cons_iff.1 h
    exact .cons hmarkers.le_position (ih hmarkers)

theorem Fit.assembled_rawText (htext : text = done ++ ahead) (hdone : done.width = cursor)
    (h : Fit text cursor markers) :
    assembled text cursor (markers.zip (markers.map Marker.rawText)) = some ahead := by
  induction markers generalizing cursor done ahead with
  | nil =>
    exact Text.slice?_eq_some_iff.2 ⟨done, [], by simp [htext], hdone, by simp [htext, hdone]⟩
  | cons marker markers ih =>
    obtain ⟨hmarker, hmarkers⟩ := fit_cons_iff.1 h
    obtain ⟨between, behind, -, hslice, hsplit, hstop⟩ :=
      Marker.carve_of_fault?_eq_none htext hdone hmarker
    have hahead : ahead = between ++ marker.rawText ++ behind := by
      have hsame : done ++ ahead = done ++ (between ++ marker.rawText ++ behind) := by
        rw [← htext, hsplit]
        simp
      exact List.append_cancel_left hsame
    rw [List.map_cons, List.zip_cons_cons, assembled, hslice, ih hsplit hstop hmarkers, hahead]
    rfl

end Fit

section Answers

variable {ε σ : Type} {replace : Replacer ε σ} {marker : Marker} {markers : List Marker}
  {state next last : σ} {text : Text} {texts : List Text} {e : ε}

/-- The caller's answer for one marker, and the caller's state behind it. -/
def answer (replace : Replacer ε σ) (marker : Marker) (state : σ) : Except ε Text × σ :=
  (replace marker).run.run state

/-- The caller is asked once for each marker, in order, up to the first answer that fails. Gives all
answers or the failure, and the caller's state behind it. -/
def answers (replace : Replacer ε σ) (markers : List Marker) (state : σ) :
    Except ε (List Text) × σ :=
  (markers.mapM replace).run.run state

theorem answers_nil (replace : Replacer ε σ) (state : σ) :
    answers replace [] state = (.ok [], state) := rfl

theorem answers_cons_of_error (h : answer replace marker state = (.error e, next)) :
    answers replace (marker :: markers) state = (.error e, next) := by
  have hrun : (replace marker).run.run state = pure (.error e, next) := h
  rw [answers, List.mapM_cons, ExceptT.run_bind, StateT.run_bind, hrun]
  rfl

theorem answers_cons_of_ok (h : answer replace marker state = (.ok text, next)) :
    answers replace (marker :: markers) state =
      ((answers replace markers next).1.map (text :: ·), (answers replace markers next).2) := by
  have hrun : (replace marker).run.run state = pure (.ok text, next) := h
  rcases hmore : answers replace markers next with ⟨result, last⟩
  have hrest : (markers.mapM replace).run.run next = pure (result, last) := hmore
  rw [answers, List.mapM_cons, ExceptT.run_bind, StateT.run_bind, hrun, pure_bind]
  simp only
  rw [ExceptT.run_bind, StateT.run_bind, hrest]
  cases result <;> rfl

theorem exists_of_answers_cons_eq_ok
    (h : answers replace (marker :: markers) state = (.ok texts, last)) :
    ∃ text more next, answer replace marker state = (.ok text, next) ∧
      answers replace markers next = (.ok more, last) ∧ texts = text :: more := by
  rcases hmarker : answer replace marker state with ⟨_ | text, next⟩
  · rw [answers_cons_of_error hmarker] at h
    cases h
  · rw [answers_cons_of_ok hmarker] at h
    rcases hmore : answers replace markers next with ⟨_ | more, final⟩
    · rw [hmore] at h
      cases h
    · rw [hmore] at h
      cases h
      exact ⟨text, more, next, rfl, hmore, rfl⟩

theorem length_of_answers (h : answers replace markers state = (.ok texts, last)) :
    texts.length = markers.length := by
  induction markers generalizing state texts with
  | nil =>
    cases h
    rfl
  | cons marker markers ih =>
    rcases exists_of_answers_cons_eq_ok h with ⟨text, more, next, -, hmore, rfl⟩
    rw [List.length_cons, List.length_cons, ih hmore]

theorem exists_of_answers_eq_error (h : answers replace markers state = (.error e, last)) :
    ∃ before marker after texts next, markers = before ++ marker :: after ∧
      answers replace before state = (.ok texts, next) ∧
      answer replace marker next = (.error e, last) := by
  induction markers generalizing state with
  | nil => cases h
  | cons marker markers ih =>
    rcases hmarker : answer replace marker state with ⟨_ | text, next⟩
    · rw [answers_cons_of_error hmarker] at h
      cases h
      exact ⟨[], marker, markers, [], state, rfl, rfl, hmarker⟩
    · rw [answers_cons_of_ok hmarker] at h
      rcases hmore : answers replace markers next with ⟨_ | more, final⟩
      · rw [hmore] at h
        cases h
        obtain ⟨before, later, after, texts, between, rfl, hbefore, hlater⟩ := ih hmore
        refine ⟨marker :: before, later, after, text :: texts, between, rfl, ?_, hlater⟩
        rw [answers_cons_of_ok hmarker, hbefore]
        rfl
      · rw [hmore] at h
        cases h

end Answers

section Run

variable {ε σ : Type} {replace : Replacer ε σ} {text done ahead between behind : Text}
  {cursor : Nat} {marker : Marker} {markers before after : List Marker} {state next last : σ}
  {texts : List Text} {e : ε} {fault : Fault}

theorem spliceFrom_of_fault (h : marker.carve cursor ahead = .error fault) :
    spliceFrom replace cursor ahead (marker :: markers) state =
      { result := .error (.fault fault), state } := by
  rw [spliceFrom, h]

theorem spliceFrom_of_refusal (h : marker.carve cursor ahead = .ok (between, behind))
    (hanswer : answer replace marker state = (.error e, next)) :
    spliceFrom replace cursor ahead (marker :: markers) state =
      { result := .error (.refused e), state := next } := by
  rw [answer] at hanswer
  simp only [spliceFrom, h, hanswer]

theorem spliceFrom_of_answer {replacement : Text}
    (h : marker.carve cursor ahead = .ok (between, behind))
    (hanswer : answer replace marker state = (.ok replacement, next)) :
    let later := spliceFrom replace marker.stop behind markers next
    spliceFrom replace cursor ahead (marker :: markers) state = { later with
      result := later.result.map fun text => between ++ replacement ++ text
      events := .spliced marker.position marker.length replacement.width :: later.events } := by
  rw [answer] at hanswer
  simp only [spliceFrom, h, hanswer]

def splicings (replaced : List (Marker × Text)) : List Event :=
  replaced.map fun (marker, replacement) =>
    .spliced marker.position marker.length replacement.width

/-- Markers that fit and are answered for leave the rest of the text to the markers behind them. -/
theorem spliceFrom_append (htext : text = done ++ ahead) (hdone : done.width = cursor)
    (hfit : Fit text cursor before) (hanswers : answers replace before state = (.ok texts, next)) :
    ∃ lead done' ahead', text = done' ++ ahead' ∧ done'.width = stopOf cursor before ∧
      (∀ after, let later := spliceFrom replace (stopOf cursor before) ahead' after next
        spliceFrom replace cursor ahead (before ++ after) state = { later with
          result := later.result.map (lead ++ ·)
          events := splicings (before.zip texts) ++ later.events }) ∧
      ∀ more, assembled text cursor (before.zip texts ++ more) =
        (assembled text (stopOf cursor before) more).map (lead ++ ·) := by
  induction before generalizing cursor done ahead state texts with
  | nil =>
    cases hanswers
    refine ⟨[], done, ahead, htext, hdone, fun after => ?_, fun more => ?_⟩
    · simp only [stopOf_nil, List.nil_append]
      rcases spliceFrom replace cursor ahead after next with ⟨_ | spliced, last, events⟩ <;> rfl
    · simp
  | cons marker before ih =>
    obtain ⟨hmarker, hbefore⟩ := fit_cons_iff.1 hfit
    obtain ⟨replacement, more, between, hanswer, hmore, rfl⟩ :=
      exists_of_answers_cons_eq_ok hanswers
    obtain ⟨gap, behind, hcarve, hslice, hsplit, hstop⟩ :=
      Marker.carve_of_fault?_eq_none htext hdone hmarker
    obtain ⟨lead, done', ahead', htext', hdone', hrun, hassembled⟩ := ih hsplit hstop hbefore hmore
    refine ⟨gap ++ replacement ++ lead, done', ahead', htext', ?_, fun after => ?_, fun more => ?_⟩
    · rw [hdone', stopOf_cons]
    · rw [List.cons_append, spliceFrom_of_answer hcarve hanswer, hrun, stopOf_cons]
      simp only [splicings, List.zip_cons_cons, List.map_cons, List.cons_append]
      rcases spliceFrom replace (stopOf marker.stop before) ahead' after next with
        ⟨_ | spliced, last, events⟩ <;> simp [Except.map]
    · rw [List.zip_cons_cons, List.cons_append, assembled, hslice, hassembled, stopOf_cons]
      cases assembled text (stopOf marker.stop before) more <;> simp

/-- Markers that fit and are all answered for leave a text that slices can be taken from. -/
theorem spliceFrom_of_fit (htext : text = done ++ ahead) (hdone : done.width = cursor)
    (hfit : Fit text cursor markers)
    (hanswers : answers replace markers state = (.ok texts, last)) :
    ∃ spliced, assembled text cursor (markers.zip texts) = some spliced ∧
      spliceFrom replace cursor ahead markers state =
        ⟨.ok spliced, last, splicings (markers.zip texts)⟩ := by
  obtain ⟨lead, done', ahead', htext', hdone', hrun, hassembled⟩ :=
    spliceFrom_append htext hdone hfit hanswers
  have hrest : text.slice? (stopOf cursor markers) text.width = some ahead' :=
    Text.slice?_eq_some_iff.2 ⟨done', [], by simp [htext'], hdone', by simp [htext', hdone']⟩
  have hend := hassembled []
  have hfinal := hrun []
  rw [List.append_nil, assembled, hrest] at hend
  rw [List.append_nil, spliceFrom] at hfinal
  refine ⟨lead ++ ahead', hend, ?_⟩
  rw [hfinal, List.append_nil]
  rfl

/-- A marker that does not fit stops the splice, and only the markers before it are reported. -/
theorem splice_of_fault (heq : markers = before ++ marker :: after) (hfit : Fit text 0 before)
    (hanswers : answers replace before state = (.ok texts, next))
    (hfault : marker.fault? text (stopOf 0 before) = some fault) :
    splice replace text markers state =
      ⟨.error (.fault fault), next, splicings (before.zip texts)⟩ := by
  obtain ⟨lead, done, ahead, htext, hdone, hrun, -⟩ :=
    spliceFrom_append (List.nil_append text).symm Text.width_nil hfit hanswers
  have hcarve := Marker.carve_of_fault?_eq_some htext hdone hfault
  rw [splice, heq, hrun, spliceFrom_of_fault hcarve, List.append_nil]
  rfl

/-- So does a marker that the caller refuses to answer for. -/
theorem splice_of_refusal (heq : markers = before ++ marker :: after)
    (hfit : Fit text 0 (before ++ [marker]))
    (hanswers : answers replace before state = (.ok texts, next))
    (hanswer : answer replace marker next = (.error e, last)) :
    splice replace text markers state =
      ⟨.error (.refused e), last, splicings (before.zip texts)⟩ := by
  obtain ⟨lead, done, ahead, htext, hdone, hrun, -⟩ :=
    spliceFrom_append (List.nil_append text).symm Text.width_nil hfit.of_append hanswers
  obtain ⟨between, behind, hcarve, -⟩ :=
    Marker.carve_of_fault?_eq_none htext hdone (hfit before marker [] rfl)
  rw [splice, heq, hrun, spliceFrom_of_refusal hcarve hanswer, List.append_nil]
  rfl

theorem splice_of_fit (hfit : Fit text 0 markers)
    (hanswers : answers replace markers state = (.ok texts, last)) :
    ∃ spliced, assembled text 0 (markers.zip texts) = some spliced ∧
      splice replace text markers state =
        ⟨.ok spliced, last, splicings (markers.zip texts)⟩ :=
  spliceFrom_of_fit (List.nil_append text).symm Text.width_nil hfit hanswers

end Run

section End

variable {ε σ : Type}

/-- How a splice of a text ends, and the state in which it leaves the caller: at the first marker
that does not fit, at the first one that the caller refuses to answer for, or behind the last
one. -/
inductive SpliceEnd (replace : Replacer ε σ) (text : Text) (markers : List Marker) (state : σ) :
    Except (SpliceFailure ε) Text → σ → Prop where
  | rejected {before marker after texts next fault} : markers = before ++ marker :: after →
      Fit text 0 before → answers replace before state = (.ok texts, next) →
      marker.fault? text (stopOf 0 before) = some fault →
      SpliceEnd replace text markers state (.error (.fault fault)) next
  | refused {before marker after texts next e last} : markers = before ++ marker :: after →
      Fit text 0 (before ++ [marker]) → answers replace before state = (.ok texts, next) →
      answer replace marker next = (.error e, last) →
      SpliceEnd replace text markers state (.error (.refused e)) last
  | finished {texts last spliced} : Fit text 0 markers →
      answers replace markers state = (.ok texts, last) →
      assembled text 0 (markers.zip texts) = some spliced →
      SpliceEnd replace text markers state (.ok spliced) last

variable {replace : Replacer ε σ} {text : Text} {markers : List Marker} {state last : σ}
  {result : Except (SpliceFailure ε) Text}

theorem SpliceEnd.of_answers_eq_error {before after : List Marker} {e : ε}
    (heq : markers = before ++ after) (hfit : Fit text 0 before)
    (h : answers replace before state = (.error e, last)) :
    SpliceEnd replace text markers state (.error (.refused e)) last := by
  obtain ⟨answered, marker, more, texts, next, rfl, hanswered, hmarker⟩ :=
    exists_of_answers_eq_error h
  have hsplit : answered ++ marker :: more = (answered ++ [marker]) ++ more := by simp
  rw [hsplit] at hfit
  rw [List.append_assoc, List.cons_append] at heq
  exact .refused heq hfit.of_append hanswered hmarker

theorem SpliceEnd.splice_eq (h : SpliceEnd replace text markers state result last) :
    (splice replace text markers state).result = result ∧
      (splice replace text markers state).state = last := by
  cases h with
  | rejected heq hfit hanswers hfault =>
    rw [splice_of_fault heq hfit hanswers hfault]
    exact ⟨rfl, rfl⟩
  | refused heq hfit hanswers hanswer =>
    rw [splice_of_refusal heq hfit hanswers hanswer]
    exact ⟨rfl, rfl⟩
  | finished hfit hanswers hassembled =>
    obtain ⟨spliced, hspliced, hrun⟩ := splice_of_fit hfit hanswers
    rw [hassembled] at hspliced
    cases hspliced
    rw [hrun]
    exact ⟨rfl, rfl⟩

theorem Fit.exists_assembled {texts : List Text} (hfit : Fit text 0 markers)
    (hanswers : answers replace markers state = (.ok texts, last)) :
    ∃ spliced, assembled text 0 (markers.zip texts) = some spliced := by
  obtain ⟨spliced, hspliced, -⟩ := splice_of_fit hfit hanswers
  exact ⟨spliced, hspliced⟩

theorem exists_spliceEnd (replace : Replacer ε σ) (text : Text) (markers : List Marker)
    (state : σ) : ∃ result last, SpliceEnd replace text markers state result last := by
  rcases fit_or_exists_fault? text 0 markers with
    hfit | ⟨before, marker, after, fault, heq, hfit, hfault⟩
  · rcases hanswers : answers replace markers state with ⟨e | texts, last⟩
    · exact ⟨_, _, .of_answers_eq_error (List.append_nil markers).symm hfit hanswers⟩
    · obtain ⟨spliced, hspliced⟩ := hfit.exists_assembled hanswers
      exact ⟨_, _, .finished hfit hanswers hspliced⟩
  · rcases hanswers : answers replace before state with ⟨e | texts, next⟩
    · exact ⟨_, _, .of_answers_eq_error heq hfit hanswers⟩
    · exact ⟨_, _, .rejected heq hfit hanswers hfault⟩

/-- Markers that fit are not what a splice fails for. -/
theorem Fit.result_splice_ne_fault {fault : Fault} (hfit : Fit text 0 markers) :
    (splice replace text markers state).result ≠ .error (.fault fault) := by
  intro h
  obtain ⟨result, last, hend⟩ := exists_spliceEnd replace text markers state
  rw [← hend.splice_eq.1, h] at hend
  cases hend with
  | rejected heq _ _ hfault =>
    rw [hfit _ _ _ heq] at hfault
    cases hfault

/-- A splice ends as its markers and the caller's answers say, whatever markers it is given and
whatever the caller does. -/
theorem splice_ends_iff (replace : Replacer ε σ) (text : Text) (markers : List Marker)
    (state last : σ) (result : Except (SpliceFailure ε) Text) :
    (SpliceEnd replace text markers state result last ↔
      (splice replace text markers state).result = result ∧
        (splice replace text markers state).state = last) ∧
    Reason.message .outOfOrder = "marker overlaps or precedes an earlier marker" ∧
    Reason.message .mismatch = "marker does not match the text at its offset" := by
  refine ⟨⟨SpliceEnd.splice_eq, ?_⟩, rfl, rfl⟩
  rintro ⟨rfl, rfl⟩
  obtain ⟨result, last, h⟩ := exists_spliceEnd replace text markers state
  rw [h.splice_eq.1, h.splice_eq.2]
  exact h

/-- A marker that starts inside the one before it is refused for that, although its text is not
there either, and the caller is asked for the first marker alone. -/
theorem splice_ends_iff_overlap :
    let counting : Replacer Unit Nat := fun _ => do
      modify (· + 1)
      return ['-']
    let first : Marker := ⟨⟨[], []⟩, "bc".toList, 1, 2⟩
    let second : Marker := ⟨⟨[], []⟩, "x".toList, 2, 1⟩
    (splice counting "abcd".toList [first, second, first] 0).result =
        .error (.fault (.unspliceable 2 .outOfOrder)) ∧
      (splice counting "abcd".toList [first, second, first] 0).state = 1 := by
  intro counting first second
  have hsplit : [first, second, first] = [first] ++ second :: [first] := rfl
  have hfit : Fit "abcd".toList 0 [first] := fit_cons_iff.2 ⟨by decide, fit_nil _ _⟩
  have hend : SpliceEnd counting "abcd".toList [first, second, first] 0
      (.error (.fault (.unspliceable 2 .outOfOrder))) 1 :=
    .rejected hsplit hfit (show answers counting [first] 0 = (.ok [['-']], 1) from rfl) (by decide)
  exact (splice_ends_iff counting _ _ 0 1 _).1.1 hend

end End

end Stencil
