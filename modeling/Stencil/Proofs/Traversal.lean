/-! # Steps that may fail, one after the other

A sequence of steps succeeds if each one does, and fails as its first failing step does. A
traversal of a list is such a sequence.
-/

namespace Stencil

variable {ε α β : Type} {f : α → Except ε β}

theorem bind_eq_ok_iff {x : Except ε α} {b : β} :
    x >>= f = .ok b ↔ ∃ a, x = .ok a ∧ f a = .ok b := by
  cases x with
  | error e => simp [bind, Except.bind]
  | ok a => simp [bind, Except.bind]

theorem bind_eq_error_iff {x : Except ε α} {e : ε} :
    x >>= f = .error e ↔ x = .error e ∨ ∃ a, x = .ok a ∧ f a = .error e := by
  cases x with
  | error e' => simp [bind, Except.bind]
  | ok a => simp [bind, Except.bind]

theorem mapM_cons_eq_ok_iff {a : α} {l : List α} {bs : List β} :
    (a :: l).mapM f = .ok bs ↔ ∃ b more, f a = .ok b ∧ l.mapM f = .ok more ∧ bs = b :: more := by
  simp only [List.mapM_cons, bind_eq_ok_iff, pure, Except.pure, Except.ok.injEq]
  constructor
  · rintro ⟨b, hb, more, hmore, rfl⟩
    exact ⟨b, more, hb, hmore, rfl⟩
  · rintro ⟨b, more, hb, hmore, rfl⟩
    exact ⟨b, hb, more, hmore, rfl⟩

theorem mapM_eq_ok_iff {l : List α} {bs : List β} : l.mapM f = .ok bs ↔ l.map f = bs.map .ok := by
  induction l generalizing bs with
  | nil => cases bs <;> simp [pure, Except.pure]
  | cons a l ih =>
    rw [mapM_cons_eq_ok_iff]
    cases bs with
    | nil => simp
    | cons b bs => simp [ih]

theorem exists_map_eq_map_ok {l : List α} (h : ∀ a ∈ l, ∃ b, f a = .ok b) :
    ∃ bs : List β, l.map f = bs.map .ok := by
  induction l with
  | nil => exact ⟨[], rfl⟩
  | cons a l ih =>
    rcases h a (by simp) with ⟨b, hb⟩
    rcases ih fun x hx => h x (by simp [hx]) with ⟨bs, hbs⟩
    exact ⟨b :: bs, by simp [hb, hbs]⟩

theorem mapM_eq_ok_iff_of_iff {P : α → Prop} {g : α → β} (hf : ∀ a b, f a = .ok b ↔ P a ∧ g a = b)
    {l : List α} {bs : List β} : l.mapM f = .ok bs ↔ (∀ a ∈ l, P a) ∧ l.map g = bs := by
  induction l generalizing bs with
  | nil => simp [pure, Except.pure]
  | cons a l ih =>
    simp only [mapM_cons_eq_ok_iff, hf, ih, List.forall_mem_cons, List.map_cons]
    constructor
    · rintro ⟨b, more, ⟨ha, rfl⟩, ⟨hl, rfl⟩, rfl⟩
      exact ⟨⟨ha, hl⟩, rfl⟩
    · rintro ⟨⟨ha, hl⟩, rfl⟩
      exact ⟨_, _, ⟨ha, rfl⟩, ⟨hl, rfl⟩, rfl⟩

theorem mapM_congr {g : α → Except ε β} {l : List α} (h : ∀ a ∈ l, f a = g a) :
    l.mapM f = l.mapM g := by
  induction l with
  | nil => rfl
  | cons a l ih =>
    rw [List.mapM_cons, List.mapM_cons, h a (by simp), ih fun x hx => h x (by simp [hx])]

theorem exists_mem_of_mapM_eq_error {l : List α} {e : ε} (h : l.mapM f = .error e) :
    ∃ a ∈ l, f a = .error e := by
  induction l with
  | nil => cases h
  | cons a l ih =>
    rw [List.mapM_cons] at h
    rcases bind_eq_error_iff.1 h with hfirst | ⟨b, -, hrest⟩
    · exact ⟨a, by simp, hfirst⟩
    · rcases bind_eq_error_iff.1 hrest with hlater | ⟨bs, -, hreturn⟩
      · rcases ih hlater with ⟨x, hx, hfails⟩
        exact ⟨x, by simp [hx], hfails⟩
      · cases hreturn

/-- A traversal fails with the first failing step, whatever comes behind it. -/
theorem mapM_eq_error_of_append {before after : List α} {a : α} {e : ε}
    (hbefore : ∀ x ∈ before, ∃ b, f x = .ok b) (ha : f a = .error e) :
    (before ++ a :: after).mapM f = .error e := by
  induction before with
  | nil =>
    rw [List.nil_append, List.mapM_cons, bind_eq_error_iff]
    exact .inl ha
  | cons x before ih =>
    rcases hbefore x (by simp) with ⟨b, hb⟩
    rw [List.cons_append, List.mapM_cons, bind_eq_error_iff]
    refine .inr ⟨b, hb, bind_eq_error_iff.2 (.inl ?_)⟩
    exact ih fun y hy => hbefore y (by simp [hy])

theorem mapM_eq_error_iff_find? {P : α → Prop} [DecidablePred P]
    (hP : ∀ a, P a ↔ ∃ e, f a = .error e) {l : List α} {e : ε} :
    l.mapM f = .error e ↔ ∃ a, l.find? (fun a => P a) = some a ∧ f a = .error e := by
  induction l with
  | nil => simp [pure, Except.pure]
  | cons a l ih =>
    rw [List.mapM_cons, bind_eq_error_iff]
    by_cases hfails : P a
    · obtain ⟨e', ha⟩ := (hP a).1 hfails
      simp [hfails, ha]
    · have hok : ∃ b, f a = .ok b := by
        cases ha : f a with
        | error e' => exact absurd ((hP a).2 ⟨e', ha⟩) hfails
        | ok b => exact ⟨b, rfl⟩
      obtain ⟨b, hb⟩ := hok
      simp [hfails, hb, bind_eq_error_iff, ih, pure, Except.pure]

/-- Two sequences fail alike if their first steps do, and so does whatever follows these. -/
theorem bind_eq_error_congr {γ δ : Type} {x : Except ε α} {y : Except ε γ} {g : γ → Except ε δ}
    {e : ε} (hfirst : ∀ e, x = .error e ↔ y = .error e)
    (hrest : ∀ a c, f a = .error e ↔ g c = .error e) :
    x >>= f = .error e ↔ y >>= g = .error e := by
  cases x with
  | error e' => rw [(hfirst e').1 rfl, bind_eq_error_iff, bind_eq_error_iff]; simp
  | ok a =>
    cases y with
    | error e' => cases (hfirst e').2 rfl
    | ok c => exact hrest a c

theorem bind_pure_eq_error_iff {γ : Type} {x : Except ε α} {g : α → γ} {e : ε} :
    (x >>= fun a => pure (g a)) = .error e ↔ x = .error e := by
  cases x <;> simp [bind, Except.bind, pure, Except.pure]

/-- Steps that are traversals themselves fail as the one traversal of everything does. -/
theorem mapM_flatMap_eq_error_iff {γ δ : Type} {g : α → List γ} {check : γ → Except ε δ}
    (hf : ∀ a e, f a = .error e ↔ (g a).mapM check = .error e) {l : List α} {e : ε} :
    l.mapM f = .error e ↔ (l.flatMap g).mapM check = .error e := by
  induction l with
  | nil => simp [pure, Except.pure]
  | cons a l ih =>
    rw [List.mapM_cons, List.flatMap_cons, List.mapM_append]
    apply bind_eq_error_congr (hf a)
    intro b cs
    rw [bind_pure_eq_error_iff, bind_pure_eq_error_iff, ih]

end Stencil
