/-! # Texts

A text is a list of characters. Its places are counted in bytes of its UTF-8 form, so a place can
miss every character boundary; `Text.cut?` and `Text.slice?` answer `none` there and beyond the end.
A character is blank if Unicode gives it the property White_Space: 25 code points in ten ranges.
Trimming removes blank characters at both ends and nothing else.
-/

namespace Stencil

/-- A text. Every place in it is a number of UTF-8 bytes from its start. -/
abbrev Text := List Char

namespace Text

/-- The number of bytes of the UTF-8 form. -/
def width : Text → Nat
  | [] => 0
  | c :: t => c.utf8Size + width t

/-- The first `n` bytes and the rest, if `n` is a character boundary of the text. -/
def cut? : Text → Nat → Option (Text × Text)
  | t, 0 => some ([], t)
  | [], _ + 1 => none
  | c :: t, n + 1 =>
    if c.utf8Size ≤ n + 1 then
      (cut? t (n + 1 - c.utf8Size)).map fun (before, after) => (c :: before, after)
    else none

/-- The bytes from `start` up to `stop`, if both are character boundaries in this order. -/
def slice? (t : Text) (start stop : Nat) : Option Text :=
  if start ≤ stop then do
    let (_, after) ← t.cut? start
    let (found, _) ← after.cut? (stop - start)
    return found
  else none

def IsBoundary (t : Text) (n : Nat) : Prop := ∃ before after, t = before ++ after ∧ width before = n

@[simp] theorem width_nil : width [] = 0 := rfl

@[simp] theorem width_cons (c : Char) (t : Text) : width (c :: t) = c.utf8Size + width t := rfl

@[simp] theorem width_append (s t : Text) : width (s ++ t) = width s + width t := by
  induction s with
  | nil => simp
  | cons c s ih => simp [ih, Nat.add_assoc]

theorem width_eq_zero {t : Text} : width t = 0 ↔ t = [] := by
  cases t with
  | nil => simp
  | cons c t =>
    have := Char.utf8Size_pos c
    simp
    omega

theorem width_pos {t : Text} (h : t ≠ []) : 0 < width t :=
  Nat.pos_of_ne_zero (mt width_eq_zero.1 h)

theorem exists_between {before after done ahead : Text} (h : before ++ after = done ++ ahead)
    (hwidth : done.width ≤ before.width) :
    ∃ between, before = done ++ between ∧ ahead = between ++ after := by
  rcases List.append_eq_append_iff.1 h with ⟨missing, rfl, rfl⟩ | ⟨between, rfl, rfl⟩
  · have hmissing : missing = [] := by
      apply width_eq_zero.1
      simp only [width_append] at hwidth
      omega
    exact ⟨[], by simp [hmissing], by simp [hmissing]⟩
  · exact ⟨between, rfl, rfl⟩

@[simp] theorem cut?_zero (t : Text) : t.cut? 0 = some ([], t) := by
  cases t <;> rfl

theorem cut?_append (before after : Text) :
    cut? (before ++ after) (width before) = some (before, after) := by
  induction before with
  | nil => simp
  | cons c before ih =>
    obtain ⟨k, hk⟩ : ∃ k, width (c :: before) = k + 1 :=
      Nat.exists_eq_add_one.2 (width_pos (by simp))
    have hsub : k + 1 - c.utf8Size = width before := by simp at hk; omega
    have hle : c.utf8Size ≤ k + 1 := by simp at hk; omega
    rw [hk, List.cons_append, cut?, if_pos hle, hsub, ih]
    rfl

theorem cut?_eq_some_iff {t before after : Text} {n : Nat} :
    t.cut? n = some (before, after) ↔ t = before ++ after ∧ width before = n := by
  constructor
  · fun_induction cut? t n generalizing before after with
    | case1 t => rintro h; cases h; simp
    | case2 => simp
    | case3 c t n hle ih =>
      intro h
      simp only [Option.map_eq_some_iff, Prod.exists] at h
      obtain ⟨b, a, hcut, heq⟩ := h
      cases heq
      obtain ⟨rfl, hw⟩ := ih hcut
      simp only [List.cons_append, width_cons, true_and]
      omega
    | case4 => simp
  · rintro ⟨rfl, rfl⟩
    exact cut?_append before after

/-- A slice is what stands between a first part of width `start` and the rest. -/
theorem slice?_eq_some_iff {t found : Text} {start stop : Nat} :
    t.slice? start stop = some found ↔
      ∃ before after, t = before ++ found ++ after ∧ width before = start ∧
        start + width found = stop := by
  unfold slice?
  split
  · next hle =>
    simp only [Option.bind_eq_bind, Option.pure_def, Option.bind_eq_some_iff, Prod.exists,
      Option.some.injEq, cut?_eq_some_iff]
    constructor
    · rintro ⟨before, _, ⟨rfl, hb⟩, _, after, ⟨rfl, hf⟩, rfl⟩
      exact ⟨before, after, by simp, hb, by omega⟩
    · rintro ⟨before, after, rfl, hb, hf⟩
      exact ⟨before, found ++ after, ⟨by simp, hb⟩, found, after, ⟨rfl, by omega⟩, rfl⟩
  · next hle =>
    simp only [reduceCtorEq, false_iff]
    rintro ⟨before, after, -, -, h⟩
    omega

/-- The code points with the property White_Space, as closed ranges in ascending order. -/
def blankRanges : List (Nat × Nat) :=
  [(0x09, 0x0D), (0x20, 0x20), (0x85, 0x85), (0xA0, 0xA0), (0x1680, 0x1680), (0x2000, 0x200A),
   (0x2028, 0x2029), (0x202F, 0x202F), (0x205F, 0x205F), (0x3000, 0x3000)]

def isBlank (c : Char) : Bool :=
  blankRanges.any fun (first, last) => first ≤ c.toNat && c.toNat ≤ last

example : (blankRanges.map fun (first, last) => last + 1 - first).sum = 25 := by decide

def trimStart (t : Text) : Text := t.dropWhile isBlank

def trimEnd (t : Text) : Text := (t.reverse.dropWhile isBlank).reverse

def trim (t : Text) : Text := trimEnd (trimStart t)

end Text

end Stencil
