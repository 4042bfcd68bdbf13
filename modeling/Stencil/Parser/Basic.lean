import Stencil.Text.Basic

/-! # Parsers

A parser reads a beginning of what is ahead or fails, and says in either case how far its rules got.
Parsers are a monad. Only a labelled parser leaves its name in a report: a character that is asked
for and missing is not reported.

Reports are frontiers, the rules that were missing at the furthest place. Two frontiers merge to the
further one, and to both in order at the same place, so frontiers are a monoid. A rule that fails is
named itself unless its parts say something more exact. What the last, failing round of a repetition
reports stays in the report of the whole, although the whole succeeds.
-/

namespace Stencil

/-- The rules that failed at the furthest place where one did. -/
structure Frontier (ρ : Type) where
  offset : Nat := 0
  labels : List ρ := []
deriving DecidableEq, Repr

namespace Frontier

variable {ρ : Type}

def merge (earlier later : Frontier ρ) : Frontier ρ :=
  if earlier.offset < later.offset then later
  else if later.offset < earlier.offset then earlier
  else { earlier with labels := earlier.labels ++ later.labels }

/-- The report of a rule that started at `start` and failed, where `inner` is the report of its
parts. Parts that got beyond the start are kept, and so is a single part that failed there. -/
def blame (inner : Frontier ρ) (rule : ρ) (start : Nat) : Frontier ρ :=
  if start < inner.offset then inner
  else if inner.offset = start ∧ inner.labels.length = 1 then inner
  else { offset := start, labels := [rule] }

theorem blame_empty (rule : ρ) (start : Nat) :
    blame {} rule start = { offset := start, labels := [rule] } := by
  simp [blame]

@[simp] theorem blame_single (inner rule : ρ) (start : Nat) :
    blame { offset := start, labels := [inner] } rule start =
      { offset := start, labels := [inner] } := by
  simp [blame]

theorem blame_of_lt {inner : Frontier ρ} {start : Nat} (rule : ρ) (h : start < inner.offset) :
    inner.blame rule start = inner := if_pos h

theorem merge_of_offset_lt {f g : Frontier ρ} (h : g.offset < f.offset) : f.merge g = f := by
  rw [merge, if_neg (Nat.not_lt.2 (Nat.le_of_lt h)), if_pos h]

@[simp] theorem merge_empty (f : Frontier ρ) : f.merge {} = f := by
  unfold merge
  split
  · simp at *
  · split <;> simp

@[simp] theorem empty_merge (f : Frontier ρ) : merge {} f = f := by
  unfold merge
  split
  · rfl
  · cases f
    simp_all

theorem merge_assoc (f g h : Frontier ρ) : (f.merge g).merge h = f.merge (g.merge h) := by
  unfold merge
  grind

end Frontier

/-- What is still to be read, and how many bytes were read before it. -/
structure Input where
  offset : Nat := 0
  ahead : Text
deriving DecidableEq, Repr

def Input.behind (input : Input) (read ahead : Text) : Input where
  offset := input.offset + read.width
  ahead := ahead

/-- What a parser found and what remains, or `none`, and how far its rules got. -/
structure Reading (ρ α : Type) where
  result : Option (α × Input)
  frontier : Frontier ρ := {}

def Parser (ρ α : Type) := Input → Reading ρ α

namespace Parser

variable {ρ α β : Type}

instance : Monad (Parser ρ) where
  pure a := fun input => { result := some (a, input) }
  bind p next := fun input =>
    match p input with
    | ⟨none, frontier⟩ => ⟨none, frontier⟩
    | ⟨some (a, rest), frontier⟩ =>
      let reading := next a rest
      ⟨reading.result, frontier.merge reading.frontier⟩

def position : Parser ρ Nat := fun input => { result := some (input.offset, input) }

def satisfy (p : Char → Bool) : Parser ρ Char := fun input =>
  match input.ahead with
  | [] => { result := none }
  | c :: ahead => { result := if p c then some (c, input.behind [c] ahead) else none }

def char (c : Char) : Parser ρ Char := satisfy (· == c)

def takeWhile (p : Char → Bool) : Parser ρ Text := fun input =>
  let run := input.ahead.takeWhile p
  { result := some (run, input.behind run (input.ahead.dropWhile p)) }

def takeWhile1 (p : Char → Bool) : Parser ρ Text := do
  let first ← satisfy p
  let others ← takeWhile p
  return first :: others

def endOfInput : Parser ρ Unit := fun input =>
  { result := if input.ahead = [] then some ((), input) else none }

/-- A parser under a name for reports. -/
def label (rule : ρ) (p : Parser ρ α) : Parser ρ α := fun input =>
  match p input with
  | ⟨none, frontier⟩ => ⟨none, frontier.blame rule input.offset⟩
  | ⟨some found, frontier⟩ => ⟨some found, frontier⟩

@[ext] theorem ext {p q : Parser ρ α} (h : ∀ input, p input = q input) : p = q := funext h

theorem pure_apply (a : α) (input : Input) :
    (pure a : Parser ρ α) input = { result := some (a, input) } := rfl

theorem bind_apply (p : Parser ρ α) (next : α → Parser ρ β) (input : Input) :
    (p >>= next) input =
      match p input with
      | ⟨none, frontier⟩ => ⟨none, frontier⟩
      | ⟨some (a, rest), frontier⟩ =>
        ⟨(next a rest).result, frontier.merge (next a rest).frontier⟩ := rfl

theorem bind_apply_of_none {p : Parser ρ α} {input : Input} (next : α → Parser ρ β)
    (h : (p input).result = none) : (p >>= next) input = ⟨none, (p input).frontier⟩ := by
  rw [bind_apply]
  split <;> simp_all

theorem bind_apply_of_some {p : Parser ρ α} {input rest : Input} {a : α} (next : α → Parser ρ β)
    (h : (p input).result = some (a, rest)) :
    (p >>= next) input =
      ⟨(next a rest).result, (p input).frontier.merge (next a rest).frontier⟩ := by
  rw [bind_apply]
  split <;> simp_all

theorem bind_pure_self (p : Parser ρ α) : p >>= pure = p := by
  ext input
  rw [bind_apply]
  split <;> simp_all [pure_apply]

theorem pure_bind_self (a : α) (next : α → Parser ρ β) : pure a >>= next = next a := by
  ext input
  simp [bind_apply, pure_apply]

theorem bind_bind {γ : Type} (p : Parser ρ α) (q : α → Parser ρ β) (r : β → Parser ρ γ) :
    p >>= q >>= r = p >>= fun a => q a >>= r := by
  ext input
  cases hp : (p input).result with
  | none =>
    rw [bind_apply_of_none r (by rw [bind_apply_of_none q hp]), bind_apply_of_none q hp,
      bind_apply_of_none _ hp]
  | some found =>
    obtain ⟨a, rest⟩ := found
    have hpq := bind_apply_of_some q hp
    rw [bind_apply_of_some _ hp]
    cases hq : (q a rest).result with
    | none =>
      rw [bind_apply_of_none r (by rw [hpq, hq]), hpq, bind_apply_of_none r hq]
    | some found =>
      obtain ⟨b, last⟩ := found
      have hb : ((p >>= q) input).result = some (b, last) := by rw [hpq, hq]
      rw [bind_apply_of_some r hb, hpq, bind_apply_of_some r hq, Frontier.merge_assoc]

instance : LawfulMonad (Parser ρ) :=
  LawfulMonad.mk' (Parser ρ) bind_pure_self pure_bind_self bind_bind

theorem result_bind_eq_some_iff {p : Parser ρ α} {next : α → Parser ρ β} {input last : Input}
    {b : β} : ((p >>= next) input).result = some (b, last) ↔
      ∃ a rest, (p input).result = some (a, rest) ∧ (next a rest).result = some (b, last) := by
  cases h : (p input).result with
  | none => simp [bind_apply_of_none next h]
  | some found =>
    obtain ⟨a, rest⟩ := found
    rw [bind_apply_of_some next h]
    constructor
    · exact fun hnext => ⟨a, rest, rfl, hnext⟩
    · rintro ⟨_, _, heq, hnext⟩
      cases heq
      exact hnext

theorem map_apply (f : α → β) (p : Parser ρ α) (input : Input) :
    (f <$> p) input =
      ⟨(p input).result.map fun (a, rest) => (f a, rest), (p input).frontier⟩ := by
  rw [map_eq_pure_bind]
  cases h : (p input).result with
  | none => simp [bind_apply_of_none _ h]
  | some found =>
    obtain ⟨a, rest⟩ := found
    simp [bind_apply_of_some _ h, pure_apply]

theorem label_of_none {p : Parser ρ α} {input : Input} (rule : ρ)
    (h : (p input).result = none) :
    p.label rule input = ⟨none, (p input).frontier.blame rule input.offset⟩ := by
  unfold label
  split <;> simp_all

theorem label_of_some {p : Parser ρ α} {input : Input} (rule : ρ)
    (h : (p input).result.isSome) : p.label rule input = p input := by
  unfold label
  split <;> simp_all

@[simp] theorem result_label (rule : ρ) (p : Parser ρ α) (input : Input) :
    (p.label rule input).result = (p input).result := by
  unfold label
  split <;> simp_all

theorem takeWhile_apply (p : Char → Bool) (input : Input) :
    (takeWhile p : Parser ρ Text) input =
      { result := some (input.ahead.takeWhile p,
          input.behind (input.ahead.takeWhile p) (input.ahead.dropWhile p)) } := rfl

theorem takeWhile1_apply (p : Char → Bool) (input : Input) :
    (takeWhile1 p : Parser ρ Text) input =
      if input.ahead.takeWhile p = [] then { result := none }
      else (takeWhile p : Parser ρ Text) input := by
  obtain ⟨offset, ahead⟩ := input
  cases ahead with
  | nil => rfl
  | cons c ahead =>
    by_cases h : p c = true
    · simp [takeWhile1, bind_apply, satisfy, h, map_apply, takeWhile_apply, Input.behind,
        Nat.add_assoc]
    · simp [takeWhile1, bind_apply, satisfy, h]

def many (p : Parser ρ α) (input : Input) : Reading ρ (List α) :=
  match p input with
  | ⟨none, frontier⟩ => ⟨some ([], input), frontier⟩
  | ⟨some (a, rest), frontier⟩ =>
    if rest.ahead.length < input.ahead.length then
      let later := many p rest
      ⟨later.result.map fun (more, last) => (a :: more, last), frontier.merge later.frontier⟩
    else ⟨some ([], input), frontier⟩
termination_by input.ahead.length

theorem many_of_none {p : Parser ρ α} {input : Input} (h : (p input).result = none) :
    many p input = ⟨some ([], input), (p input).frontier⟩ := by
  rw [many]
  split <;> simp_all

theorem many_of_some {p : Parser ρ α} {input rest : Input} {a : α}
    (h : (p input).result = some (a, rest)) (hlt : rest.ahead.length < input.ahead.length) :
    many p input =
      ⟨(many p rest).result.map fun (more, last) => (a :: more, last),
        (p input).frontier.merge (many p rest).frontier⟩ := by
  rw [many]
  split <;> simp_all

theorem isSome_result_many (p : Parser ρ α) (input : Input) : (many p input).result.isSome := by
  fun_induction many p input with
  | case1 => rfl
  | case2 input a rest frontier h hlt later ih => simpa [later] using ih
  | case3 => rfl

end Parser

end Stencil
