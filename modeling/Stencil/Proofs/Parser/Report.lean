import Stencil.Proofs.Parser.Language

/-! # Reports of parsers

What a parser reports is what its rules were missing. A parser without rules reports nothing, and a
quiet one reports nothing where it succeeds; a repetition of a quiet parser then reports no more
than its last round, which is the one that fails. A rule that fails reports its first part if that
is missing, and itself if its parts have nothing to report.
-/

namespace Stencil

namespace Parser

variable {ρ α β : Type} {p : Parser ρ α} {input rest : Input}

def IsSilent (p : Parser ρ α) : Prop := ∀ input, (p input).frontier = {}

/-- The parser reports nothing where it succeeds. -/
def IsQuiet (p : Parser ρ α) : Prop := ∀ input, (p input).result.isSome → (p input).frontier = {}

theorem isSilent_pure (a : α) : IsSilent (pure a : Parser ρ α) := fun _ => rfl

theorem isSilent_takeWhile (q : Char → Bool) : IsSilent (takeWhile q : Parser ρ Text) :=
  fun _ => rfl

theorem isSilent_char (c : Char) : IsSilent (char c : Parser ρ Char) := by
  rintro ⟨offset, ahead⟩
  cases ahead <;> rfl

theorem IsSilent.isQuiet (h : p.IsSilent) : p.IsQuiet := fun input _ => h input

theorem IsSilent.bind {next : α → Parser ρ β} (h : p.IsSilent) (hnext : ∀ a, (next a).IsSilent) :
    (p >>= next).IsSilent := by
  intro input
  cases hp : (p input).result with
  | none => rw [bind_apply_of_none next hp, h]
  | some found => simp [bind_apply_of_some next hp, h input, hnext found.1 found.2]

theorem IsSilent.many (h : p.IsSilent) : IsSilent (many p) := by
  intro input
  fun_induction Parser.many p input with
  | case1 input frontier hp => simpa [hp] using h input
  | case2 input a rest frontier hp _ later ih =>
    have hfrontier : frontier = {} := by simpa [hp] using h input
    simp [later, ih, hfrontier]
  | case3 input a rest frontier hp => simpa [hp] using h input

theorem IsQuiet.bind {next : α → Parser ρ β} (h : p.IsQuiet) (hnext : ∀ a, (next a).IsQuiet) :
    (p >>= next).IsQuiet := by
  intro input hsome
  cases hp : (p input).result with
  | none => simp [bind_apply_of_none next hp] at hsome
  | some found =>
    rw [bind_apply_of_some next hp] at hsome ⊢
    simp [h input (by simp [hp]), hnext found.1 found.2 hsome]

theorem IsQuiet.label (h : p.IsQuiet) (rule : ρ) : (p.label rule).IsQuiet := by
  intro input hsome
  rw [result_label] at hsome
  rw [label_of_some rule hsome]
  exact h input hsome

/-- A repetition of a quiet parser reports what its last round does. -/
theorem IsQuiet.frontier_many {as : List α} (h : p.IsQuiet) (hp : p.Progresses)
    (hmany : (many p input).result = some (as, rest)) :
    (many p input).frontier = (p rest).frontier := by
  induction as generalizing input with
  | nil =>
    rcases (result_many_eq_some_iff (hp input)).1 hmany with ⟨-, rfl, hnone⟩ | ⟨_, _, _, hnil, -⟩
    · rw [many_of_none hnone]
    · cases hnil
  | cons a as ih =>
    rcases (result_many_eq_some_iff (hp input)).1 hmany with ⟨hnil, -⟩ | ⟨_, mid, _, heq, ha, hmore⟩
    · cases hnil
    · cases heq
      rw [many_of_some ha (hp input a mid ha), h input (by simp [ha]), Frontier.empty_merge,
        ih hmore]

theorem many_bind_of_none {next : List α → Parser ρ β} (h : (p input).result = none) :
    (many p >>= next) input =
      ⟨(next [] input).result, (p input).frontier.merge (next [] input).frontier⟩ := by
  have hmany : (many p input).result = some ([], input) := by rw [many_of_none h]
  rw [bind_apply_of_some next hmany, many_of_none h]

theorem IsQuiet.many_bind_of_some {next : List α → Parser ρ β} {a : α} (h : p.IsQuiet)
    (hp : p.Progresses) (ha : (p input).result = some (a, rest)) :
    (many p >>= next) input = (many p >>= fun as => next (a :: as)) rest := by
  obtain ⟨⟨as, last⟩, hlater⟩ := Option.isSome_iff_exists.1 (isSome_result_many p rest)
  have hround := many_of_some ha (hp input a rest ha)
  rw [hlater, h input (by rw [ha]; rfl), Frontier.empty_merge] at hround
  have hmany : (many p input).result = some (a :: as, last) := by rw [hround]; rfl
  rw [bind_apply_of_some next hmany, hround, bind_apply_of_some (fun as => next (a :: as)) hlater]

theorem label_bind_of_first {next : α → Parser ρ β} {inner : ρ} (rule : ρ)
    (h : p input = ⟨none, ⟨input.offset, [inner]⟩⟩) :
    (p >>= next).label rule input = ⟨none, ⟨input.offset, [inner]⟩⟩ := by
  have hbind : (p >>= next) input = ⟨none, ⟨input.offset, [inner]⟩⟩ := by
    rw [bind_apply_of_none next (by rw [h]), h]
  rw [label_of_none rule (by rw [hbind]), hbind, Frontier.blame_single]

theorem label_of_frontier_eq (rule : ρ) (hnone : (p input).result = none)
    (h : (p input).frontier = {}) : p.label rule input = ⟨none, ⟨input.offset, [rule]⟩⟩ := by
  rw [label_of_none rule hnone, h, Frontier.blame_empty]

variable {c : Char} {more : Text}

theorem behind_char_apply (p : Parser ρ α) (h : input.ahead = c :: more) :
    (do let _ ← char c; p) input = p (input.behind [c] more) := by
  have hc : (char c input : Reading ρ Char) = { result := some (c, input.behind [c] more) } := by
    simp [char, satisfy, h]
  rw [bind_apply_of_some (fun _ => p) (by rw [hc]), hc, Frontier.empty_merge]

theorem behind_char_apply_of_ne (p : Parser ρ α) (h : input.ahead.head? ≠ some c) :
    (do let _ ← char c; p) input = { result := none } := by
  have hc : (char c input : Reading ρ Char).result = none := by
    rcases input with ⟨offset, _ | ⟨x, ahead⟩⟩
    · rfl
    · simpa [char, satisfy] using h
  rw [bind_apply_of_none (fun _ => p) hc, isSilent_char c input]

end Parser

end Stencil
