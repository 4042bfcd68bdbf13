import Stencil.Scan.Basic
import Stencil.Proofs.Body.Faulty

/-! # Reserved characters that are blank

Names are searched for reserved characters before they are trimmed, and reported as they are after
it. The two agree as long as no reserved character is blank. A blank one can be reported of a name
that does not hold it.
-/

namespace Stencil

namespace Text

theorem mem_dropWhile {p : Char → Bool} {t : Text} {c : Char} (h : c ∈ t) (hc : p c = false) :
    c ∈ t.dropWhile p := by
  have hmem : c ∈ t.takeWhile p ++ t.dropWhile p := by rwa [List.takeWhile_append_dropWhile]
  rcases List.mem_append.1 hmem with hrun | hrest
  · have htrue := List.all_eq_true.1 List.all_takeWhile c hrun
    rw [hc] at htrue
    cases htrue
  · exact hrest

theorem mem_trim {t : Text} {c : Char} (h : c ∈ t) (hc : isBlank c = false) : c ∈ t.trim := by
  rw [trim, trimEnd, List.mem_reverse]
  apply mem_dropWhile _ hc
  rw [List.mem_reverse]
  exact mem_dropWhile h hc

theorem not_mem_structural_of_isBlank {c : Char} (h : isBlank c = true) :
    c ∉ ['.', ':', '(', ')', ','] := by
  intro hc
  simp only [List.mem_cons, List.not_mem_nil, or_false] at hc
  rcases hc with rfl | rfl | rfl | rfl | rfl <;> exact absurd h (by decide)

end Text

theorem parse_singleton_of_isBlank {reserved : Text} {c : Char} (hc : c ∈ reserved)
    (hblank : Text.isBlank c = true) :
    ∃ written, Grammar.read Grammar.body [c] = .ok written ∧
      Body.parse [c] reserved = .error ⟨0, .reserved .segment [] c⟩ := by
  let s : Spelling := ⟨⟨[c], []⟩, []⟩
  let part : Part := ⟨.segment, ⟨0, [c]⟩⟩
  have hname : IsName [c] := by
    refine ⟨List.cons_ne_nil c [], fun x hx => ?_⟩
    rw [List.mem_singleton.1 hx]
    exact Text.not_mem_structural_of_isBlank hblank
  have hs : s.IsGrammatical := ⟨by simpa [s, Row.toList] using hname, by simp [s]⟩
  have hread := Grammar.read_body_eq_ok_iff.2 ⟨s, hs, rfl, rfl⟩
  have hfaulty : part.IsFaulty reserved := .inl ⟨by simp [part], c, by simp [part], hc⟩
  have htrim : Text.trim [c] = [] := Text.trim_eq_nil_iff.2 (by simpa using hblank)
  have hparse : Body.parse [c] reserved = .error ⟨0, .reserved .segment (Text.trim [c]) c⟩ := by
    apply (parse_eq_error_iff_find? hread).2
    have hparts : (s.place 0).parts = [part] := rfl
    refine ⟨part, ?_, .reserved [] [] (by simp [part]) rfl (by simp) hc⟩
    rw [hparts]
    exact List.find?_cons_of_pos (by simpa using hfaulty)
  rw [htrim] at hparse
  exact ⟨s.place 0, hread, hparse⟩

/-- As long as no reserved character is blank, one that is reported is left in its name. -/
theorem exists_mem_parts_of_reserved {text reserved piece : Text} {written : WrittenBody}
    {offset : Nat} {kind : PieceKind} {c : Char}
    (hreserved : ∀ x ∈ reserved, Text.isBlank x = false)
    (hread : Grammar.read Grammar.body text = .ok written)
    (hparse : Body.parse text reserved = .error ⟨offset, .reserved kind piece c⟩) :
    ∃ part ∈ written.parts, part.kind ≠ .argument ∧ piece = part.piece.text.trim ∧
      c ∈ piece ∧ c ∈ reserved := by
  obtain ⟨part, hfind, hreport⟩ := (parse_eq_error_iff_find? hread).1 hparse
  cases hreport with
  | reserved before after hkind htext _ hc =>
    refine ⟨part, List.mem_of_find?_eq_some hfind, hkind, rfl, ?_, hc⟩
    exact Text.mem_trim (by simp [htext]) (hreserved c hc)

/-- A name free of reserved characters, blanks around it aside, is never reported for one, and what
is reported for one holds it, just if no reserved character is blank. -/
theorem reports_hold_reserved_iff (reserved : Text) :
    (∀ text written, Grammar.read Grammar.body text = .ok written →
      ((∀ part ∈ written.parts, part.kind ≠ .argument →
          ∀ c ∈ part.piece.text.trim, c ∉ reserved) →
        ∀ offset kind piece c,
          Body.parse text reserved ≠ .error ⟨offset, .reserved kind piece c⟩) ∧
      ∀ offset kind piece c,
        Body.parse text reserved = .error ⟨offset, .reserved kind piece c⟩ → c ∈ piece) ↔
    ∀ c ∈ reserved, Text.isBlank c = false := by
  constructor
  · intro h c hc
    by_contra hblank
    rw [Bool.not_eq_false] at hblank
    obtain ⟨written, hread, hparse⟩ := parse_singleton_of_isBlank hc hblank
    have hmem := (h _ _ hread).2 _ _ _ _ hparse
    cases hmem
  · intro h text written hread
    constructor
    · intro hfree offset kind piece c hparse
      obtain ⟨part, hpart, hkind, rfl, hmem, hc⟩ := exists_mem_parts_of_reserved h hread hparse
      exact hfree part hpart hkind c hmem hc
    · intro offset kind piece c hparse
      obtain ⟨part, -, -, -, hmem, -⟩ := exists_mem_parts_of_reserved h hread hparse
      exact hmem

/-- With a space in the delimiters, a space in front of a name is reported as a character of it. -/
theorem reports_hold_reserved_space :
    ∃ d : Delimiters, ∃ written, d.reserved = "<  >".toList ∧
      Grammar.read Grammar.body " a".toList = .ok written ∧
      (∀ part ∈ written.parts, ∀ c ∈ part.piece.text.trim, c ∉ d.reserved) ∧
      Body.parse " a".toList d.reserved = .error ⟨0, .reserved .segment ['a'] ' '⟩ ∧
      ' ' ∉ ['a'] := by
  let s : Spelling := ⟨⟨" a".toList, []⟩, []⟩
  let d : Delimiters := ⟨"< ".toList, " >".toList, by decide, by decide, by decide⟩
  have hread : Grammar.read Grammar.body s.text = .ok (s.place 0) :=
    Grammar.read_body_eq_ok_iff.2 ⟨s, by decide, rfl, rfl⟩
  refine ⟨d, s.place 0, rfl, hread, by decide, ?_, by decide⟩
  apply (parse_eq_error_iff_find? hread).2
  refine ⟨⟨.segment, ⟨0, " a".toList⟩⟩, by decide, ?_⟩
  exact .reserved [] ['a'] (by decide) rfl (by decide) (by decide)

end Stencil
