import Stencil.Parser.Basic

/-! # Languages of parsers

A language says how its phrases are written, what they are read as, and where reading them has to
stop. A parser that a language describes reads a phrase from an input exactly when the input begins
with one and reading stops behind it. Repetition with a separator carries a description over from
one phrase to many.
-/

namespace Stencil

structure Input.Reaches (input : Input) (read : Text) (rest : Input) : Prop where
  ahead_eq : input.ahead = read ++ rest.ahead
  offset_eq : rest.offset = input.offset + read.width

namespace Input

variable {input rest : Input} {s t : Text}

@[simp] theorem reaches_nil_iff : input.Reaches [] rest ↔ rest = input := by
  rcases input with ⟨offset, ahead⟩
  rcases rest with ⟨offset', ahead'⟩
  constructor
  · rintro ⟨hahead, hoffset⟩
    simp_all
  · rintro h
    cases h
    exact ⟨rfl, rfl⟩

theorem reaches_append_iff :
    input.Reaches (s ++ t) rest ↔ ∃ mid, input.Reaches s mid ∧ mid.Reaches t rest := by
  constructor
  · rintro ⟨hahead, hoffset⟩
    refine ⟨⟨input.offset + s.width, t ++ rest.ahead⟩, ⟨?_, rfl⟩, ⟨rfl, ?_⟩⟩
    · rw [hahead, List.append_assoc]
    · rw [hoffset, Text.width_append, Nat.add_assoc]
  · rintro ⟨mid, hs, ht⟩
    constructor
    · rw [hs.ahead_eq, ht.ahead_eq, List.append_assoc]
    · rw [ht.offset_eq, hs.offset_eq, Text.width_append, Nat.add_assoc]

theorem Reaches.trans {mid : Input} (hs : input.Reaches s mid) (ht : mid.Reaches t rest) :
    input.Reaches (s ++ t) rest := reaches_append_iff.2 ⟨mid, hs, ht⟩

theorem Reaches.length_lt (h : input.Reaches s rest) (hs : s ≠ []) :
    rest.ahead.length < input.ahead.length := by
  have hlength := List.length_pos_iff.2 hs
  rw [h.ahead_eq, List.length_append]
  omega

end Input

def Text.Stops (p : Char → Bool) (t : Text) : Prop := ∀ c ∈ t.head?, p c = false

namespace Text

variable {p : Char → Bool}

@[simp] theorem stops_nil : Stops p [] := by
  simp [Stops]

@[simp] theorem stops_cons_iff {c : Char} {t : Text} : Stops p (c :: t) ↔ p c = false := by
  simp [Stops]

theorem stops_dropWhile (p : Char → Bool) (t : Text) : Stops p (t.dropWhile p) := by
  induction t with
  | nil => simp
  | cons c t ih =>
    by_cases h : p c = true
    · simpa [h] using ih
    · simp [h]

/-- The longest run of a class is the one that is not followed by one more of its characters. -/
theorem takeWhile_eq_and_dropWhile_eq_iff {t run rest : Text} :
    t.takeWhile p = run ∧ t.dropWhile p = rest ↔
      t = run ++ rest ∧ (∀ c ∈ run, p c = true) ∧ Stops p rest := by
  constructor
  · rintro ⟨rfl, rfl⟩
    refine ⟨List.takeWhile_append_dropWhile.symm, ?_, stops_dropWhile p t⟩
    intro c hc
    exact List.all_eq_true.1 List.all_takeWhile c hc
  · rintro ⟨rfl, hrun, hrest⟩
    induction run with
    | nil =>
      cases rest with
      | nil => simp
      | cons c rest =>
        have hc : p c = false := by simpa using hrest
        simp [hc]
    | cons c run ih =>
      have hc := hrun c (by simp)
      have hlater := ih (fun x hx => hrun x (by simp [hx]))
      simp [hc, hlater]

end Text

namespace Parser

variable {ρ α β : Type} {input rest : Input}

theorem result_satisfy_eq_some_iff {p : Char → Bool} {c : Char} :
    (satisfy p input : Reading ρ Char).result = some (c, rest) ↔
      p c = true ∧ input.Reaches [c] rest := by
  rcases input with ⟨offset, ahead⟩
  rcases rest with ⟨offset', ahead'⟩
  cases ahead with
  | nil =>
    simp only [satisfy, reduceCtorEq, false_iff]
    rintro ⟨-, h, -⟩
    cases h
  | cons x ahead =>
    simp only [satisfy, Option.ite_none_right_eq_some, Option.some.injEq, Prod.mk.injEq,
      Input.behind, Input.mk.injEq]
    constructor
    · rintro ⟨hx, rfl, rfl, rfl⟩
      exact ⟨hx, rfl, rfl⟩
    · rintro ⟨hc, hahead, hoffset⟩
      cases hahead
      exact ⟨hc, rfl, hoffset.symm, rfl⟩

theorem result_char_eq_some_iff {sought c : Char} :
    (char sought input : Reading ρ Char).result = some (c, rest) ↔
      c = sought ∧ input.Reaches [c] rest := by
  rw [char, result_satisfy_eq_some_iff, beq_iff_eq]

theorem result_takeWhile_eq_some_iff {p : Char → Bool} {run : Text} :
    (takeWhile p input : Reading ρ Text).result = some (run, rest) ↔
      (∀ c ∈ run, p c = true) ∧ input.Reaches run rest ∧ rest.ahead.Stops p := by
  rcases rest with ⟨offset, ahead⟩
  have hlongest : input.ahead.takeWhile p = run ∧ input.ahead.dropWhile p = ahead ↔ _ :=
    Text.takeWhile_eq_and_dropWhile_eq_iff
  simp only [takeWhile, Option.some.injEq, Prod.mk.injEq, Input.behind, Input.mk.injEq]
  constructor
  · rintro ⟨hrun, hoffset, hahead⟩
    rcases hlongest.1 ⟨hrun, hahead⟩ with ⟨heq, hall, hstops⟩
    refine ⟨hall, ⟨heq, ?_⟩, hstops⟩
    rw [← hoffset, hrun]
  · rintro ⟨hall, ⟨heq, hoffset⟩, hstops⟩
    rcases hlongest.2 ⟨heq, hall, hstops⟩ with ⟨hrun, hahead⟩
    exact ⟨hrun, by rw [hrun]; exact hoffset.symm, hahead⟩

def Progresses (p : Parser ρ α) : Prop :=
  ∀ input a rest, (p input).result = some (a, rest) → rest.ahead.length < input.ahead.length

theorem result_many_eq_some_iff {p : Parser ρ α} {as : List α}
    (hp : ∀ a mid, (p input).result = some (a, mid) → mid.ahead.length < input.ahead.length) :
    (many p input).result = some (as, rest) ↔
      (as = [] ∧ rest = input ∧ (p input).result = none) ∨
      ∃ a mid more, as = a :: more ∧ (p input).result = some (a, mid) ∧
        (many p mid).result = some (more, rest) := by
  cases h : (p input).result with
  | none =>
    rw [many_of_none h]
    simp [eq_comm]
  | some found =>
    rcases found with ⟨a, mid⟩
    rw [many_of_some h (hp a mid h)]
    simp only [Option.map_eq_some_iff, Prod.exists, Prod.mk.injEq, reduceCtorEq, and_false,
      false_or, Option.some.injEq]
    constructor
    · rintro ⟨more, last, hmore, rfl, rfl⟩
      exact ⟨a, mid, more, rfl, ⟨rfl, rfl⟩, hmore⟩
    · rintro ⟨_, _, more, rfl, ⟨rfl, rfl⟩, hmore⟩
      exact ⟨more, rest, hmore, rfl, rfl⟩

end Parser

/-- Phrases at their places, the first behind a separator at `start` and each further one behind a
separator of its own. -/
def placeEach {α β : Type} (text : α → Text) (place : Nat → α → β) (separator : Char) :
    Nat → List α → List β
  | _, [] => []
  | start, a :: phrases =>
    place (start + separator.utf8Size) a ::
      placeEach text place separator (start + separator.utf8Size + (text a).width) phrases

/-- Phrases, how they are written, what they are read as from their place on, which of them are
allowed, and what may stand ahead once one is read to its end. -/
structure Language (α β : Type) where
  text : α → Text
  place : Nat → α → β
  Valid : α → Prop
  Final : Text → Prop

namespace Language

variable {ρ α β : Type} (L : Language α β)

/-- A parser reads the phrases of the language, each as far as it goes, and nothing else. -/
def Describes (p : Parser ρ β) : Prop :=
  ∀ input b rest, (p input).result = some (b, rest) ↔
    ∃ a, L.Valid a ∧ b = L.place input.offset a ∧ input.Reaches (L.text a) rest ∧
      L.Final rest.ahead

def Starts (t : Text) : Prop :=
  ∃ a more, L.Valid a ∧ t = L.text a ++ more ∧ L.Final more

/-- Where a list of phrases ends: no separator follows, or one that no phrase stands behind. -/
def ListFinal (separator : Char) (t : Text) : Prop :=
  L.Final t ∧ ∀ more, t = separator :: more → ¬ L.Starts more

variable {L} {p : Parser ρ β} {input rest : Input}

theorem Describes.isSome_result_iff (h : L.Describes p) :
    (p input).result.isSome ↔ L.Starts input.ahead := by
  rw [Option.isSome_iff_exists]
  constructor
  · rintro ⟨⟨b, rest⟩, hb⟩
    rcases (h input b rest).1 hb with ⟨a, ha, -, hread, hfinal⟩
    exact ⟨a, rest.ahead, ha, hread.ahead_eq, hfinal⟩
  · rintro ⟨a, more, ha, hahead, hfinal⟩
    exact ⟨_, (h input _ ⟨input.offset + (L.text a).width, more⟩).2
      ⟨a, ha, rfl, ⟨hahead, rfl⟩, hfinal⟩⟩

theorem Describes.behind_char (h : L.Describes p) {separator : Char} {b : β} :
    ((do let _ ← Parser.char separator; p) input).result = some (b, rest) ↔
      ∃ a, L.Valid a ∧ b = L.place (input.offset + separator.utf8Size) a ∧
        input.Reaches (separator :: L.text a) rest ∧ L.Final rest.ahead := by
  rw [Parser.result_bind_eq_some_iff]
  simp only [Parser.result_char_eq_some_iff]
  constructor
  · rintro ⟨c, mid, ⟨rfl, hc⟩, hb⟩
    rcases (h mid b rest).1 hb with ⟨a, ha, rfl, hread, hfinal⟩
    have hoffset := hc.offset_eq
    refine ⟨a, ha, ?_, hc.trans hread, hfinal⟩
    rw [hoffset]
    rfl
  · rintro ⟨a, ha, rfl, hread, hfinal⟩
    rcases Input.reaches_append_iff (s := [separator]).1 hread with ⟨mid, hc, hread⟩
    refine ⟨separator, mid, ⟨rfl, hc⟩, (h mid _ rest).2 ⟨a, ha, ?_, hread, hfinal⟩⟩
    rw [hc.offset_eq]
    rfl

theorem Describes.behind_char_eq_none_iff (h : L.Describes p) {separator : Char} :
    ((do let _ ← Parser.char separator; p) input).result = none ↔
      ∀ more, input.ahead = separator :: more → ¬ L.Starts more := by
  rw [← Option.not_isSome_iff_eq_none, Option.isSome_iff_exists]
  constructor
  · rintro hnone more hahead ⟨a, rest, ha, rfl, hfinal⟩
    exact hnone ⟨(_, ⟨input.offset + Text.width (separator :: L.text a), rest⟩),
      h.behind_char.2 ⟨a, ha, rfl, ⟨hahead, rfl⟩, hfinal⟩⟩
  · rintro hnone ⟨⟨b, rest⟩, hb⟩
    rcases h.behind_char.1 hb with ⟨a, ha, -, hread, hfinal⟩
    exact hnone _ hread.ahead_eq ⟨a, _, ha, rfl, hfinal⟩

theorem Describes.progresses_behind_char (h : L.Describes p) {separator : Char} :
    Parser.Progresses (do let _ ← Parser.char separator; p) := by
  intro input b mid hb
  rcases h.behind_char.1 hb with ⟨a, -, -, hread, -⟩
  exact hread.length_lt (List.cons_ne_nil _ _)

/-- Repetition reads as many phrases as there are, each with a separator in front. -/
theorem Describes.many (h : L.Describes p) {separator : Char}
    (hseparator : ∀ t, L.Final (separator :: t)) {bs : List β} (hinput : L.Final input.ahead) :
    (Parser.many (do let _ ← Parser.char separator; p) input).result = some (bs, rest) ↔
      ∃ phrases, (∀ a ∈ phrases, L.Valid a) ∧
        bs = placeEach L.text L.place separator input.offset phrases ∧
        input.Reaches (phrases.flatMap fun a => separator :: L.text a) rest ∧
        L.ListFinal separator rest.ahead := by
  have hprogress : Parser.Progresses (do let _ ← Parser.char separator; p) :=
    h.progresses_behind_char
  induction bs generalizing input with
  | nil =>
    rw [Parser.result_many_eq_some_iff (hprogress input), h.behind_char_eq_none_iff]
    constructor
    · rintro (⟨-, rfl, hnone⟩ | ⟨b, mid, more, hnil, -⟩)
      · exact ⟨[], by simp, rfl, Input.reaches_nil_iff.2 rfl, hinput, hnone⟩
      · cases hnil
    · rintro ⟨phrases, -, hplace, hread, hfinal⟩
      cases phrases with
      | nil =>
        rcases Input.reaches_nil_iff.1 hread with rfl
        exact .inl ⟨rfl, rfl, hfinal.2⟩
      | cons a phrases => cases hplace
  | cons b bs ih =>
    rw [Parser.result_many_eq_some_iff (hprogress input)]
    constructor
    · rintro (⟨hnil, -⟩ | ⟨_, mid, _, heq, hb, hmore⟩)
      · cases hnil
      · cases heq
        rcases h.behind_char.1 hb with ⟨a, ha, rfl, hread, hfinal⟩
        rcases (ih hfinal).1 hmore with ⟨phrases, hphrases, rfl, hlater, hend⟩
        refine ⟨a :: phrases, ?_, ?_, hread.trans hlater, hend⟩
        · simpa [ha] using hphrases
        · rw [placeEach, hread.offset_eq, Text.width_cons, Nat.add_assoc]
    · rintro ⟨phrases, hphrases, hplace, hread, hend⟩
      cases phrases with
      | nil => cases hplace
      | cons a phrases =>
        rw [List.flatMap_cons, Input.reaches_append_iff] at hread
        rcases hread with ⟨mid, hread, hlater⟩
        rw [placeEach, List.cons.injEq] at hplace
        rcases hplace with ⟨rfl, rfl⟩
        -- a phrase ends at the next separator, or where the whole list does
        have hmid : L.Final mid.ahead := by
          rw [hlater.ahead_eq]
          cases phrases with
          | nil => exact hend.1
          | cons next phrases => exact hseparator _
        refine .inr ⟨_, mid, _, rfl, h.behind_char.2 ⟨a, hphrases a (by simp), rfl, hread, hmid⟩,
          ?_⟩
        refine (ih hmid).2 ⟨phrases, fun x hx => hphrases x (by simp [hx]), ?_, hlater, hend⟩
        rw [hread.offset_eq, Text.width_cons, Nat.add_assoc]

end Language

end Stencil
