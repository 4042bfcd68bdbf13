import Stencil.Proofs.Splice

/-! # Markers replaced one at a time

A marker that is replaced leaves everything in front of it where it was. So the markers of a list
can be replaced one at a time from the last to the first, each at its original place, and the text
that comes out is the one that a single pass from the left makes.
-/

namespace Stencil

variable {ε σ : Type}

def replaceOne (marker : Marker) (replacement text : Text) : Except (SpliceFailure Empty) Text :=
  (splice (fun _ => pure replacement) text [marker] ()).result

/-- The text with its markers replaced one after the other, from the last to the first. -/
def spliceBackward (text : Text) (replaced : List (Marker × Text)) :
    Except (SpliceFailure Empty) Text :=
  replaced.foldrM (fun (marker, replacement) text => replaceOne marker replacement text) text

/-- Answers with the texts of a list, one for each marker whatever it is. -/
def recite : Replacer Unit (List Text) := fun _ => do
  match ← get with
  | [] => throw ()
  | text :: texts =>
    set texts
    return text

theorem answers_recite {markers : List Marker} {texts : List Text}
    (h : texts.length = markers.length) : answers recite markers texts = (.ok texts, []) := by
  induction markers generalizing texts with
  | nil => rw [List.length_eq_zero_iff.1 h, answers_nil]
  | cons marker markers ih =>
    cases texts with
    | nil => simp at h
    | cons text texts =>
      have hanswer : answer recite marker (text :: texts) = (.ok text, texts) := rfl
      rw [answers_cons_of_ok hanswer, ih (by simpa using h)]
      rfl

theorem replaceOne_eq {marker : Marker} {before : Text} (replacement after : Text)
    (hposition : before.width = marker.position) (hlength : marker.rawText.width = marker.length) :
    replaceOne marker replacement (before ++ marker.rawText ++ after) =
      .ok (before ++ replacement ++ after) := by
  have hcarve : marker.carve 0 (before ++ marker.rawText ++ after) = .ok (before, after) :=
    Marker.carve_eq_ok_iff.2 ⟨by omega, hlength, rfl⟩
  have hanswer : answer (fun _ => pure replacement : Replacer Empty Unit) marker () =
    (.ok replacement, ()) := rfl
  rw [replaceOne, splice, spliceFrom_of_answer hcarve hanswer, spliceFrom]
  rfl

theorem spliceBackward_cons_of_ok {text later : Text} {replaced : List (Marker × Text)}
    (h : spliceBackward text replaced = .ok later) (marker : Marker) (replacement : Text) :
    spliceBackward text ((marker, replacement) :: replaced) =
      replaceOne marker replacement later := by
  rw [spliceBackward, List.foldrM_cons, ← spliceBackward, h]
  rfl

/-- Markers that fit are replaced from the last one on without touching what stands before them. -/
theorem Fit.spliceBackward_eq {text done ahead : Text} {cursor : Nat} {markers : List Marker}
    {texts : List Text} (htext : text = done ++ ahead) (hdone : done.width = cursor)
    (hfit : Fit text cursor markers) (hlength : texts.length = markers.length) :
    ∃ rest, assembled text cursor (markers.zip texts) = some rest ∧
      spliceBackward text (markers.zip texts) = .ok (done ++ rest) := by
  induction markers generalizing cursor done ahead texts with
  | nil =>
    refine ⟨ahead, ?_, congrArg Except.ok htext⟩
    exact Text.slice?_eq_some_iff.2 ⟨done, [], by simp [htext], hdone, by simp [htext, hdone]⟩
  | cons marker markers ih =>
    cases texts with
    | nil => simp at hlength
    | cons replacement texts =>
      obtain ⟨hmarker, hmarkers⟩ := fit_cons_iff.1 hfit
      obtain ⟨between, behind, -, hslice, hsplit, hstop⟩ :=
        Marker.carve_of_fault?_eq_none htext hdone hmarker
      obtain ⟨rest, hassembled, hbackward⟩ := ih hsplit hstop hmarkers (by simpa using hlength)
      have hposition : (done ++ between).width = marker.position := by
        obtain ⟨_, _, -, -, hwidth⟩ := Text.slice?_eq_some_iff.1 hslice
        rw [Text.width_append, hdone, hwidth]
      have hwidth : marker.rawText.width = marker.length := by
        rw [Text.width_append, hposition, Marker.stop] at hstop
        omega
      refine ⟨between ++ replacement ++ rest, ?_, ?_⟩
      · rw [List.zip_cons_cons, assembled, hslice, hassembled]
        rfl
      · have hone := replaceOne_eq replacement rest hposition hwidth
        rw [List.zip_cons_cons, spliceBackward_cons_of_ok hbackward, hone]
        simp

theorem fit_of_result_splice {replace : Replacer ε σ} {text result : Text}
    {markers : List Marker} {state : σ}
    (h : (splice replace text markers state).result = .ok result) : Fit text 0 markers := by
  obtain ⟨_, last, hend⟩ := exists_spliceEnd replace text markers state
  rw [← hend.splice_eq.1, h] at hend
  cases hend with
  | finished hfit _ _ => exact hfit

/-- If a list of markers is accepted for a text from any caller, then it is accepted with any
replacements, and these can be put in one at a time from the last to the first: no marker is refused
on the way, and the text that comes out is the one of a single pass. -/
theorem splice_eq_spliceBackward {replace : Replacer ε σ} {text accepted : Text}
    {markers : List Marker} {state : σ} {texts : List Text}
    (h : (splice replace text markers state).result = .ok accepted)
    (hlength : texts.length = markers.length) :
    ∃ spliced, spliceBackward text (markers.zip texts) = .ok spliced ∧
      (splice recite text markers texts).result = .ok spliced ∧
      ∀ {ε' σ' : Type} (other : Replacer ε' σ') (start last : σ'),
        answers other markers start = (.ok texts, last) →
        (splice other text markers start).result = .ok spliced := by
  have hfit := fit_of_result_splice h
  obtain ⟨spliced, hassembled, hbackward⟩ :=
    hfit.spliceBackward_eq (List.nil_append text).symm Text.width_nil hlength
  refine ⟨spliced, hbackward, ?_, fun other start last hanswers => ?_⟩
  · exact (SpliceEnd.finished hfit (answers_recite hlength) hassembled).splice_eq.1
  · exact (SpliceEnd.finished hfit hanswers hassembled).splice_eq.1

/-- Two empty markers and one of two bytes, all at the same place. -/
theorem splice_eq_spliceBackward_samePlace :
    let nothing : Marker := ⟨⟨[], []⟩, [], 1, 0⟩
    let letter : Marker := ⟨⟨[], []⟩, ['é'], 1, 2⟩
    spliceBackward "aéa".toList [(nothing, ['x']), (nothing, "yy".toList), (letter, [])] =
      .ok "axyya".toList := by
  intro nothing letter
  have haccepted : (splice (fun _ => pure ['-'] : Replacer Empty Unit) "aéa".toList
      [nothing, nothing, letter] ()).result = .ok "a---a".toList := rfl
  let texts : List Text := [['x'], "yy".toList, []]
  obtain ⟨spliced, hbackward, hspliced, -⟩ :=
    splice_eq_spliceBackward haccepted (show texts.length = 3 from rfl)
  have hsame : (splice recite "aéa".toList [nothing, nothing, letter] texts).result =
      .ok "axyya".toList := rfl
  rw [hsame, Except.ok.injEq] at hspliced
  rw [← hspliced] at hbackward
  exact hbackward

end Stencil
