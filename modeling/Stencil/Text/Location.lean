import Stencil.Text.Basic

/-! # Finding places in a text

`Text.around?` splits a text at the first place where a mark occurs. Two occurrences may overlap, so
it is not enough that the mark does not occur in what stands in front of it: `Text.IsGap` asks that
it does not occur across the end either. `Text.around?_eq_some_iff` says that the search finds
exactly this split, and `Text.around?_eq_none_iff` that it gives up only where there is none.

`Text.locate` says where a reader with an editor finds a place. A line feed ends a line, and a
carriage return before it belongs to the same line end; a carriage return alone is a character like
any other.
-/

namespace Stencil.Text

/-- What stands before the first occurrence of `mark` and what stands after it. -/
def around? (mark : Text) : Text → Option (Text × Text)
  | [] => if mark = [] then some ([], []) else none
  | c :: t =>
    if mark <+: c :: t then some ([], (c :: t).drop mark.length)
    else (around? mark t).map fun (before, after) => (c :: before, after)

def Occurs (mark t : Text) : Prop := ∃ before after, t = before ++ mark ++ after

/-- The mark occurs in `gap ++ mark` at the end and at no place before it. -/
def IsGap (mark gap : Text) : Prop :=
  ∀ shorter, shorter ++ mark <+: gap ++ mark → gap.length ≤ shorter.length

/-- What follows the mark has no part in its first occurrence. -/
theorem isGap_iff_append {mark gap : Text} (after : Text) :
    IsGap mark gap ↔
      ∀ shorter, shorter ++ mark <+: gap ++ mark ++ after → gap.length ≤ shorter.length := by
  constructor
  · intro h shorter hs
    refine Nat.le_of_not_lt fun hlt => Nat.not_le_of_lt hlt (h shorter ?_)
    exact List.prefix_of_prefix_length_le hs (List.prefix_append _ _) (by simp; omega)
  · intro h shorter hs
    exact h shorter (hs.trans (List.prefix_append _ _))

theorem eq_of_around? {mark t before after : Text} (h : around? mark t = some (before, after)) :
    t = before ++ mark ++ after := by
  induction t generalizing before after with
  | nil =>
    simp only [around?, Option.ite_none_right_eq_some, Option.some.injEq, Prod.mk.injEq] at h
    simp [h.1, ← h.2.1, ← h.2.2]
  | cons c t ih =>
    rw [around?] at h
    split at h
    · next hm =>
      cases h
      obtain ⟨rest, hrest⟩ := hm
      simp [← hrest]
    · simp only [Option.map_eq_some_iff, Prod.exists] at h
      obtain ⟨b, a, hba, heq⟩ := h
      cases heq
      simp [ih hba]

theorem length_le_of_around? {mark t before after shorter : Text}
    (h : around? mark t = some (before, after)) (hs : shorter ++ mark <+: t) :
    before.length ≤ shorter.length := by
  induction t generalizing before after shorter with
  | nil =>
    simp only [around?, Option.ite_none_right_eq_some, Option.some.injEq, Prod.mk.injEq] at h
    simp [← h.2.1]
  | cons c t ih =>
    rw [around?] at h
    split at h
    · cases h
      simp
    · next hm =>
      simp only [Option.map_eq_some_iff, Prod.exists] at h
      obtain ⟨b, a, hba, heq⟩ := h
      cases heq
      cases shorter with
      | nil => exact absurd hs hm
      | cons d shorter =>
        rw [List.cons_append, List.cons_prefix_cons] at hs
        simpa using ih hba hs.2

theorem isSome_around?_iff {mark t : Text} : (around? mark t).isSome ↔ Occurs mark t := by
  constructor
  · rw [Option.isSome_iff_exists]
    rintro ⟨⟨before, after⟩, h⟩
    exact ⟨before, after, eq_of_around? h⟩
  · rintro ⟨before, after, rfl⟩
    induction before with
    | nil =>
      cases h : [] ++ mark ++ after with
      | nil =>
        have : mark = [] := by simp at h; exact h.1
        simp [around?, this]
      | cons c t =>
        have hp : mark <+: c :: t := ⟨after, by simpa using h⟩
        simp [around?, hp]
    | cons c before ih =>
      rw [List.cons_append, List.cons_append, around?]
      split
      · rfl
      · simpa using ih

theorem around?_eq_none_iff {mark t : Text} : around? mark t = none ↔ ¬ Occurs mark t := by
  rw [← isSome_around?_iff]
  simp

/-- The search finds the first occurrence, whatever overlaps it. -/
theorem around?_eq_some_iff {mark t before after : Text} :
    around? mark t = some (before, after) ↔
      t = before ++ mark ++ after ∧ IsGap mark before := by
  constructor
  · intro h
    have ht := eq_of_around? h
    refine ⟨ht, (isGap_iff_append after).2 fun shorter hs => ?_⟩
    exact length_le_of_around? h (ht ▸ hs)
  · rintro ⟨ht, hgap⟩
    obtain ⟨⟨b, a⟩, hba⟩ := Option.isSome_iff_exists.1
      (isSome_around?_iff.2 ⟨before, after, ht⟩)
    have hb := eq_of_around? hba
    have hle : b.length = before.length :=
      Nat.le_antisymm (length_le_of_around? hba ⟨after, ht.symm⟩)
        ((isGap_iff_append after).1 hgap b ⟨a, by rw [← ht, hb]⟩)
    rw [ht, List.append_assoc, List.append_assoc] at hb
    obtain ⟨rfl, hrest⟩ := List.append_inj hb hle.symm
    rw [hba, List.append_cancel_left hrest]

/-- A line and a column, both counted from one; columns count characters. -/
structure Location where
  line : Nat := 1
  column : Nat := 1
deriving DecidableEq, Repr

def Location.behind (loc : Location) : Text → Location
  | [] => loc
  | '\r' :: '\n' :: t => behind { line := loc.line + 1 } t
  | '\n' :: t => behind { line := loc.line + 1 } t
  | _ :: t => behind { loc with column := loc.column + 1 } t

/-- The longest beginning of the text that has at most `offset` bytes. -/
def upTo : Text → Nat → Text
  | [], _ => []
  | c :: t, offset => if c.utf8Size ≤ offset then c :: upTo t (offset - c.utf8Size) else []

def locate (t : Text) (offset : Nat) : Location := Location.behind {} (t.upTo offset)

theorem upTo_append (before after : Text) : upTo (before ++ after) (width before) = before := by
  induction before with
  | nil =>
    cases after with
    | nil => rfl
    | cons c after =>
      have := Char.utf8Size_pos c
      rw [List.nil_append, upTo, if_neg (by simp; omega)]
  | cons c before ih =>
    rw [List.cons_append, upTo, if_pos (by simp), width_cons, Nat.add_sub_cancel_left, ih]

/-- A place between two characters is where one gets to behind all that stands in front of it. -/
theorem locate_append (before after : Text) :
    locate (before ++ after) before.width = Location.behind {} before := by
  rw [locate, upTo_append]

example : locate ['a', '\r', '\n', 'é', '\r', 'b', '.'] 7 = ⟨2, 4⟩ := by decide

end Stencil.Text
