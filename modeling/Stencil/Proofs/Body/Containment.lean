import Stencil.Proofs.Body.Frame

/-! # Pieces inside pieces

A piece lies in another one if it is a part of its text and stands at the place of that part. A text
put together from pieces and separators holds nothing but these, so a piece of it that is made of
none of the separators lies in one of the pieces, with all of its characters.
-/

namespace Stencil

/-- The piece is a part of the other one, and stands where that part does. -/
def Piece.LiesIn (inner outer : Piece) : Prop :=
  ∃ front back, outer.text = front ++ inner.text ++ back ∧
    inner.start = outer.start + front.width

namespace Piece

variable {inner middle outer p : Piece} {start : Nat} {s t : Text} {c : Char}

theorem LiesIn.trans (h : inner.LiesIn middle) (h' : middle.LiesIn outer) :
    inner.LiesIn outer := by
  rcases h with ⟨front, back, hmiddle, hstart⟩
  rcases h' with ⟨front', back', houter, hstart'⟩
  refine ⟨front' ++ front, back ++ back', ?_, ?_⟩
  · simp [houter, hmiddle]
  · rw [hstart, hstart', Text.width_append, Nat.add_assoc]

theorem liesIn_append_left (start : Nat) (s t : Text) :
    LiesIn ⟨start, s⟩ ⟨start, s ++ t⟩ := ⟨[], t, rfl, rfl⟩

theorem liesIn_append_right (start : Nat) (s t : Text) :
    LiesIn ⟨start + s.width, t⟩ ⟨start, s ++ t⟩ := ⟨s, [], by simp, rfl⟩

theorem liesIn_cons (start : Nat) (c : Char) (t : Text) :
    LiesIn ⟨start + c.utf8Size, t⟩ ⟨start, c :: t⟩ := liesIn_append_right start [c] t

theorem LiesIn.subset (h : inner.LiesIn outer) : inner.text ⊆ outer.text := by
  rcases h with ⟨front, back, houter, -⟩
  intro c hc
  simp [houter, hc]

theorem LiesIn.slice? (h : inner.LiesIn ⟨0, t⟩) :
    t.slice? inner.start inner.stop = some inner.text := by
  rcases h with ⟨front, back, ht, hstart⟩
  apply Text.slice?_eq_some_iff.2
  exact ⟨front, back, ht, by simp [hstart], rfl⟩

/-- What lies in a piece is not wider than the piece. -/
theorem LiesIn.bounds (h : inner.LiesIn outer) :
    outer.start ≤ inner.start ∧ inner.stop ≤ outer.stop := by
  rcases h with ⟨front, back, houter, hstart⟩
  rw [stop, stop, houter, hstart]
  simp only [Text.width_append]
  omega

/-- A character that is none of the piece is in front of it or behind it. -/
theorem LiesIn.of_append_cons (hc : c ∉ p.text) (h : p.LiesIn ⟨start, s ++ c :: t⟩) :
    p.LiesIn ⟨start, s⟩ ∨ p.LiesIn ⟨start + s.width + c.utf8Size, t⟩ := by
  rcases h with ⟨front, back, htext, hstart⟩
  rcases append_eq_append_cons htext.symm with ⟨rest, hfront, rfl⟩ | ⟨rest, rfl, -⟩
  · rcases append_eq_append_cons hfront with ⟨between, rfl, rfl⟩ | ⟨between, -, hp⟩
    · right
      refine ⟨between, back, rfl, ?_⟩
      rw [hstart, Text.width_append, Text.width_cons, Nat.add_assoc, Nat.add_assoc]
    · apply absurd _ hc
      simp [hp]
  · exact .inl ⟨front, rest, rfl, hstart⟩

theorem LiesIn.of_cons (hp : p.text ≠ []) (hc : c ∉ p.text) (h : p.LiesIn ⟨start, c :: t⟩) :
    p.LiesIn ⟨start + c.utf8Size, t⟩ := by
  rcases LiesIn.of_append_cons (s := []) hc h with ⟨front, back, hnil, -⟩ | hbehind
  · simp_all
  · exact hbehind

end Piece

open Piece

section Phrases

variable {α β : Type} {text : α → Text} {as : List α} {p : Piece}
  {start : Nat} {separator : Char} {s : Text}

theorem liesIn_append_flatMap (hseparator : separator ∉ p.text)
    (h : p.LiesIn ⟨start, s ++ as.flatMap fun a => separator :: text a⟩) :
    p.LiesIn ⟨start, s⟩ ∨ p.LiesIn ⟨start + s.width, as.flatMap fun a => separator :: text a⟩ := by
  cases as with
  | nil => exact .inl (by simpa using h)
  | cons a as =>
    rcases LiesIn.of_append_cons hseparator h with hin | hbehind
    · exact .inl hin
    · exact .inr (hbehind.trans (liesIn_cons _ separator _))

theorem exists_of_liesIn_flatMap (text : α → Text) (place : Nat → α → β) (hp : p.text ≠ [])
    (hseparator : separator ∉ p.text)
    (h : p.LiesIn ⟨start, as.flatMap fun a => separator :: text a⟩) :
    ∃ a ∈ as, ∃ start', place start' a ∈ placeEach text place separator start as ∧
      Piece.LiesIn ⟨start', text a⟩ ⟨start, as.flatMap fun a => separator :: text a⟩ ∧
      p.LiesIn ⟨start', text a⟩ := by
  induction as generalizing start with
  | nil =>
    rcases h with ⟨front, back, hnil, -⟩
    simp_all
  | cons a as ih =>
    let rest := as.flatMap fun a => separator :: text a
    let behind := start + separator.utf8Size
    have hwhole : (a :: as).flatMap (fun a => separator :: text a) =
        separator :: (text a ++ rest) := List.flatMap_cons
    rw [hwhole] at h ⊢
    have hbehind : LiesIn ⟨behind, text a ++ rest⟩ ⟨start, separator :: (text a ++ rest)⟩ :=
      liesIn_cons start separator _
    rcases liesIn_append_flatMap hseparator (h.of_cons hp hseparator) with hin | hlater
    · have hfirst := (liesIn_append_left behind (text a) rest).trans hbehind
      exact ⟨a, by simp, behind, by simp [placeEach, behind], hfirst, hin⟩
    · have hrest := (liesIn_append_right behind (text a) rest).trans hbehind
      rcases ih hlater with ⟨a', ha', start', hplace, hlies, hin⟩
      exact ⟨a', by simp [ha'], start', List.mem_cons_of_mem _ hplace, hlies.trans hrest, hin⟩

end Phrases

section Spelling

variable {p : Piece} {start : Nat} {separator : Char}

theorem Row.exists_of_liesIn {row : Row} (hp : p.text ≠ []) (hseparator : separator ∉ p.text)
    (h : p.LiesIn ⟨start, row.text separator⟩) :
    ∃ piece ∈ (row.place separator start).toList,
      piece.LiesIn ⟨start, row.text separator⟩ ∧ p.LiesIn piece := by
  rcases liesIn_append_flatMap hseparator h with hin | hlater
  · have hfirst : LiesIn ⟨start, row.first⟩ ⟨start, row.text separator⟩ :=
      liesIn_append_left start row.first _
    exact ⟨⟨start, row.first⟩, List.mem_cons_self, hfirst, hin⟩
  · rcases exists_of_liesIn_flatMap id Piece.mk hp hseparator hlater with
      ⟨t, -, start', hplace, hlies, hin⟩
    exact ⟨⟨start', t⟩, List.mem_cons_of_mem _ hplace,
      hlies.trans (liesIn_append_right start row.first _), hin⟩

theorem Stage.cases_of_liesIn {stage : Stage} (hp : p.text ≠ [])
    (hstructural : ∀ c ∈ p.text, c ∉ ['(', ')', ',']) (h : p.LiesIn ⟨start, stage.text⟩) :
    p.LiesIn (stage.place start).name ∨
    (∃ argument ∈ (stage.place start).arguments.toList,
      argument.LiesIn ⟨start, stage.text⟩ ∧ p.LiesIn argument) ∨
    p.text ⊆ stage.trailing := by
  have hforeign : ∀ c ∈ ['(', ')', ','], c ∉ p.text := fun c hc hmem => hstructural c hmem hc
  have hlead : LiesIn ⟨start, stage.name ++ '(' :: stage.arguments.text ','⟩ ⟨start, stage.text⟩ :=
    liesIn_append_left start _ _
  rcases h.of_append_cons (hforeign ')' (by simp)) with hin | hbehind
  · rcases hin.of_append_cons (hforeign '(' (by simp)) with hname | hrow
    · exact .inl hname
    · rcases Row.exists_of_liesIn hp (hforeign ',' (by simp)) hrow with
        ⟨argument, hargument, hlies, hin⟩
      have hplace := liesIn_append_right start stage.name ('(' :: stage.arguments.text ',')
      have hopen := liesIn_cons (start + stage.name.width) '(' (stage.arguments.text ',')
      exact .inr (.inl ⟨argument, hargument, ((hlies.trans hopen).trans hplace).trans hlead, hin⟩)
  · exact .inr (.inr hbehind.subset)

/-- A spelling holds a piece in one of its path segments or in one of its stages. -/
theorem Spelling.cases_of_liesIn {s : Spelling} (hp : p.text ≠ [])
    (hstructural : ∀ c ∈ p.text, c ∉ ['.', ':']) (h : p.LiesIn ⟨start, s.text⟩) :
    (∃ segment ∈ (s.place start).path.toList, p.LiesIn segment) ∨
    ∃ stage ∈ s.stages, ∃ start', stage.place start' ∈ (s.place start).calls ∧
      LiesIn ⟨start', stage.text⟩ ⟨start, s.text⟩ ∧ p.LiesIn ⟨start', stage.text⟩ := by
  have hforeign : ∀ c ∈ ['.', ':'], c ∉ p.text := fun c hc hmem => hstructural c hmem hc
  rcases liesIn_append_flatMap (hforeign ':' (by simp)) h with hpath | hstages
  · rcases Row.exists_of_liesIn hp (hforeign '.' (by simp)) hpath with ⟨segment, hsegment, -, hin⟩
    exact .inl ⟨segment, hsegment, hin⟩
  · rcases exists_of_liesIn_flatMap _ Stage.place hp (hforeign ':' (by simp)) hstages with
      ⟨stage, hstage, start', hplace, hlies, hin⟩
    have hrest := liesIn_append_right start (s.path.text '.')
      (s.stages.flatMap fun stage => ':' :: stage.text)
    exact .inr ⟨stage, hstage, start', hplace, hlies.trans hrest, hin⟩

end Spelling

end Stencil
