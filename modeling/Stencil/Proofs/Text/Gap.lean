import Stencil.Text.Location

/-! # Gaps

A gap ends where a mark occurs for the first time. A text has one such place at most, and a gap that
is put together from pieces is a gap as long as no separator between them is a character of the
mark.
-/

namespace Stencil.Text

variable {mark : Text}

theorem IsGap.eq_of_append_eq {gap gap' after after' : Text} (h : mark.IsGap gap)
    (h' : mark.IsGap gap') (heq : gap ++ mark ++ after = gap' ++ mark ++ after') :
    gap = gap' ∧ after = after' := by
  have hfound : around? mark (gap ++ mark ++ after) = some (gap, after) :=
    around?_eq_some_iff.2 ⟨rfl, h⟩
  rw [around?_eq_some_iff.2 ⟨heq, h'⟩] at hfound
  simpa [eq_comm] using hfound

theorem isGap_iff_around? {gap : Text} :
    mark.IsGap gap ↔ around? mark (gap ++ mark) = some (gap, []) := by
  rw [around?_eq_some_iff, List.append_nil]
  exact (and_iff_right rfl).symm

instance (mark t : Text) : Decidable (mark.Occurs t) := decidable_of_iff _ isSome_around?_iff

instance (mark gap : Text) : Decidable (mark.IsGap gap) := decidable_of_iff _ isGap_iff_around?.symm

theorem IsGap.nil (mark : Text) : mark.IsGap [] := by
  intro shorter _
  simp

theorem not_occurs_nil (hmark : mark ≠ []) : ¬ mark.Occurs [] := by
  rintro ⟨before, after, heq⟩
  simp_all

/-- What a mark begins with in front of a foreign character, it is all there. -/
theorem prefix_of_prefix_append_cons {s t : Text} {c : Char} (hc : c ∉ mark)
    (h : mark <+: s ++ c :: t) : mark <+: s := by
  rcases Nat.lt_or_ge s.length mark.length with hlt | hle
  · apply absurd _ hc
    have hs : s ++ [c] <+: s ++ c :: t := by simp
    exact (List.prefix_of_prefix_length_le hs h (by simpa using Nat.succ_le_of_lt hlt)).subset
      (by simp)
  · exact List.prefix_of_prefix_length_le h (List.prefix_append _ _) hle

/-- A character that is none of the mark keeps apart what stands on its two sides. -/
theorem IsGap.behind {s t : Text} {c : Char} (ht : mark.IsGap t) (hs : ¬ mark.Occurs s)
    (hc : c ∉ mark) : mark.IsGap (s ++ c :: t) := by
  intro shorter hprefix
  rw [List.append_assoc, List.cons_append] at hprefix
  have hshorter := (List.prefix_append _ _).trans hprefix
  rcases Nat.lt_or_ge s.length shorter.length with hlt | hle
  · rcases List.prefix_of_prefix_length_le (List.prefix_append s _) hshorter (Nat.le_of_lt hlt)
      with ⟨u, rfl⟩
    rw [List.append_assoc, List.prefix_append_right_inj] at hprefix
    cases u with
    | nil => simp at hlt
    | cons c' u =>
      rcases List.cons_prefix_cons.1 hprefix with ⟨rfl, hbehind⟩
      have hle := ht u hbehind
      simpa using hle
  · rcases List.prefix_of_prefix_length_le hshorter (List.prefix_append s _) hle with ⟨u, rfl⟩
    rw [List.append_assoc, List.prefix_append_right_inj] at hprefix
    rcases prefix_of_prefix_append_cons hc hprefix with ⟨after, rfl⟩
    exact absurd ⟨shorter, after, by simp⟩ hs

theorem IsGap.behind_disjoint {s t : Text} (ht : mark.IsGap t) (hmark : mark ≠ [])
    (hs : ∀ c ∈ s, c ∉ mark) : mark.IsGap (s ++ t) := by
  induction s with
  | nil => exact ht
  | cons c s ih =>
    have hbehind := ih fun c' hc' => hs c' (by simp [hc'])
    exact hbehind.behind (not_occurs_nil hmark) (hs c (by simp))

theorem Occurs.of_cons {t : Text} {c : Char} (h : mark.Occurs (c :: t)) (hmark : mark ≠ [])
    (hc : c ∉ mark) : mark.Occurs t := by
  rcases h with ⟨before, after, heq⟩
  cases before with
  | nil =>
    cases mark with
    | nil => exact absurd rfl hmark
    | cons m mark =>
      cases heq
      exact absurd (by simp) hc
  | cons c' before =>
    cases heq
    exact ⟨before, after, rfl⟩

end Stencil.Text
