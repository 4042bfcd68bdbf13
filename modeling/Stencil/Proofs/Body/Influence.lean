import Stencil.Proofs.Body.Faulty

/-! # The influence of reserved characters

Reserved characters are looked for in names alone, and names are made of characters without
structure. So what a text is read as depends on the other reserved characters, each either reserved
or not, and never on their order or number. With more of them fewer bodies are read, and the ones
that are left are read as before.
-/

namespace Stencil

variable {reserved reserved' text : Text}

/-- The pieces of a body that no reserved character may stand in. -/
def WrittenBody.names (written : WrittenBody) : List Piece :=
  written.path.toList ++ written.calls.map WrittenCall.name

theorem Piece.nameOf_congr {kind : PieceKind} {piece : Piece}
    (h : ∀ c ∈ piece.text, c ∈ reserved ↔ c ∈ reserved') :
    piece.nameOf kind reserved = piece.nameOf kind reserved' := by
  by_cases hfound : ∃ c ∈ piece.text, c ∈ reserved
  · rcases exists_eq_append_of_mem_reserved hfound with ⟨before, c, after, htext, hbefore, hc⟩
    rw [htext] at h
    have hc' : c ∈ reserved' := (h c (by simp)).1 hc
    have hbefore' : ∀ x ∈ before, x ∉ reserved' := by
      intro x hx
      rw [← h x (by simp [hx])]
      exact hbefore x hx
    rw [nameOf_of_eq_append htext hbefore hc, nameOf_of_eq_append htext hbefore' hc']
  · have hfree : ∀ x ∈ piece.text, x ∉ reserved := fun x hx hmem => hfound ⟨x, hx, hmem⟩
    have hfree' : ∀ x ∈ piece.text, x ∉ reserved' := by
      intro x hx
      rw [← h x hx]
      exact hfree x hx
    rw [nameOf_of_not_mem hfree, nameOf_of_not_mem hfree']

theorem WrittenCall.decode_congr {call : WrittenCall}
    (h : ∀ c ∈ call.name.text, c ∈ reserved ↔ c ∈ reserved') :
    call.decode reserved = call.decode reserved' := by
  rw [decode, decode, Piece.nameOf_congr h]

theorem WrittenBody.decode_congr {written : WrittenBody}
    (h : ∀ name ∈ written.names, ∀ c ∈ name.text, c ∈ reserved ↔ c ∈ reserved') :
    written.decode reserved = written.decode reserved' := by
  have hpath : written.path.toList.mapM (Piece.nameOf .segment reserved) =
      written.path.toList.mapM (Piece.nameOf .segment reserved') := by
    apply mapM_congr
    intro segment hsegment
    exact Piece.nameOf_congr (h segment (List.mem_append_left _ hsegment))
  have hcalls : written.calls.mapM (WrittenCall.decode reserved) =
      written.calls.mapM (WrittenCall.decode reserved') := by
    apply mapM_congr
    intro call hcall
    apply WrittenCall.decode_congr
    exact h call.name (List.mem_append_right _ (List.mem_map_of_mem hcall))
  rw [decode, decode, hpath, hcalls]

theorem isName_of_mem_names {written : WrittenBody} {name : Piece}
    (h : Grammar.read Grammar.body text = .ok written) (hname : name ∈ written.names) :
    IsName name.text := by
  rcases Grammar.read_body_eq_ok_iff.1 h with ⟨s, hs, -, rfl⟩
  rw [← spelling_place 0 s] at hs
  rcases List.mem_append.1 hname with hsegment | hfunction
  · exact hs.path _ (text_mem_row hsegment)
  · rcases List.mem_map.1 hfunction with ⟨call, hcall, rfl⟩
    exact (hs.stages call.stage (List.mem_map_of_mem hcall)).name

theorem parse_congr_of_mem_iff
    (h : ∀ c, c ∉ ['.', ':', '(', ')', ','] → (c ∈ reserved ↔ c ∈ reserved')) :
    Body.parse text reserved = Body.parse text reserved' := by
  cases hread : Grammar.read Grammar.body text with
  | error fault => simp only [Body.parse, hread, bind, Except.bind]
  | ok written =>
    rw [parse_of_read_eq_ok hread, parse_of_read_eq_ok hread]
    apply WrittenBody.decode_congr
    intro name hname c hc
    exact h c ((isName_of_mem_names hread hname).2 c hc)

theorem IsFit.mono {t : Text} (hsubset : reserved ⊆ reserved') (h : IsFit reserved' t) :
    IsFit reserved t := ⟨fun c hc hmem => h.1 c hc (hsubset hmem), h.2⟩

theorem Stage.IsMeaningful.mono {stage : Stage} (hsubset : reserved ⊆ reserved')
    (h : stage.IsMeaningful reserved') : stage.IsMeaningful reserved where
  name := h.name.mono hsubset
  arguments := h.arguments

theorem Spelling.IsMeaningful.mono {s : Spelling} (hsubset : reserved ⊆ reserved')
    (h : s.IsMeaningful reserved') : s.IsMeaningful reserved where
  path t ht := (h.path t ht).mono hsubset
  stages stage hstage := (h.stages stage hstage).mono hsubset

theorem parse_of_subset {body : Body} (hsubset : reserved ⊆ reserved')
    (h : Body.parse text reserved' = .ok body) : Body.parse text reserved = .ok body := by
  rcases parse_eq_ok_iff.1 h with ⟨s, hs, hgrammar, hmeaning, hbody⟩
  exact parse_eq_ok_iff.2 ⟨s, hs, hgrammar, hmeaning.mono hsubset, hbody⟩

/-- Reserved characters that differ in structural ones alone, or in order and number, make no
difference, to the body or to what is reported. With more reserved characters a body that is still
read is the same. -/
theorem parse_congr_and_mono_reserved (text reserved reserved' : Text) :
    ((∀ c, c ∉ ['.', ':', '(', ')', ','] → (c ∈ reserved ↔ c ∈ reserved')) →
      Body.parse text reserved = Body.parse text reserved') ∧
    ((∀ c ∈ reserved, c ∈ reserved') → ∀ body, Body.parse text reserved' = .ok body →
      Body.parse text reserved = .ok body) ∧
    Body.parse text (reserved ++ reserved') = Body.parse text (reserved' ++ reserved) := by
  refine ⟨parse_congr_of_mem_iff, fun hsubset body => parse_of_subset fun c hc => hsubset c hc, ?_⟩
  apply parse_congr_of_mem_iff
  intro c _
  rw [List.mem_append, List.mem_append, or_comm]

/-- Brackets in any order with a point and a colon among them, and one bracket instead of both. -/
theorem parse_congr_and_mono_reserved_brackets :
    Body.parse "a.b[".toList "]:[.]".toList = .error ⟨3, .reserved .segment "b[".toList '['⟩ ∧
    Body.parse "a:f([)".toList "]".toList = .ok ⟨[['a']], [⟨['f'], [['[']]⟩]⟩ := by
  constructor
  · let s : Spelling := ⟨⟨['a'], ["b[".toList]⟩, []⟩
    have hread : Grammar.read Grammar.body s.text = .ok (s.place 0) :=
      Grammar.read_body_eq_ok_iff.2 ⟨s, by decide, rfl, rfl⟩
    have hbrackets : Body.parse s.text "[]".toList =
        .error ⟨3, .reserved .segment "b[".toList '['⟩ := by
      apply (parse_eq_error_iff_find? hread).2
      exact ⟨⟨.segment, ⟨2, "b[".toList⟩⟩, by decide,
        .reserved ['b'] [] (by decide) rfl (by decide) (by decide)⟩
    rw [← hbrackets]
    apply (parse_congr_and_mono_reserved s.text "]:[.]".toList "[]".toList).1
    intro c hc
    simp_all [or_comm]
  · let s : Spelling := ⟨⟨['a'], []⟩, [⟨['f'], ⟨['['], []⟩, []⟩]⟩
    have hboth : Body.parse s.text "[]".toList = .ok s.body :=
      parse_eq_ok_iff.2 ⟨s, rfl, by decide, by decide, rfl⟩
    exact (parse_congr_and_mono_reserved s.text "]".toList "[]".toList).2.1 (by decide) _ hboth

end Stencil
