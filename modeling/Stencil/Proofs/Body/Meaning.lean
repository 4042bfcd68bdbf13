import Mathlib.Data.List.DropRight
import Stencil.Body.Grammar
import Stencil.Proofs.Body.Grammar
import Stencil.Proofs.Traversal

/-! # What a body is read as

A text is read as a body exactly when it has a grammatical and meaningful spelling, and then it is
read as the body of that spelling. A text has one such spelling at most, so nothing is left to the
way the grammar is searched.
-/

namespace Stencil

theorem Text.trim_cons_of_isBlank {c : Char} (h : isBlank c = true) (t : Text) :
    trim (c :: t) = trim t := by
  rw [trim, trim, trimStart, List.dropWhile_cons_of_pos h, trimStart]

theorem Text.trim_eq_nil_iff {t : Text} : trim t = [] ↔ ∀ c ∈ t, isBlank c = true := by
  rw [trim]
  apply List.rdropWhile_eq_nil_iff.trans
  induction t with
  | nil => simp [trimStart]
  | cons c t ih =>
    by_cases h : isBlank c = true
    · simpa [trimStart, h] using ih
    · simp [trimStart, h]

theorem trim_ne_nil_iff {t : Text} : t.trim ≠ [] ↔ ¬ t.AllBlank := not_congr Text.trim_eq_nil_iff

theorem trimmed_eq_ok_iff_not_allBlank {kind : PieceKind} {t : Text} {piece : Piece} :
    piece.trimmed kind = .ok t ↔ ¬ piece.text.AllBlank ∧ piece.text.trim = t := by
  rw [← trim_ne_nil_iff, Piece.trimmed]
  by_cases h : piece.text.trim = []
  · simp [h]
  · simp [h]

theorem nameOf_eq_ok_iff_isFit {kind : PieceKind} {reserved t : Text} {piece : Piece} :
    piece.nameOf kind reserved = .ok t ↔ IsFit reserved piece.text ∧ piece.text.trim = t := by
  rw [IsFit, and_assoc, ← @trimmed_eq_ok_iff_not_allBlank kind, Piece.nameOf]
  split
  · next h => simp_all
  · next found rest h =>
    have hne : ¬ ∀ c ∈ piece.text, c ∉ reserved := by
      intro hall
      have hnil : piece.text.dropWhile (· ∉ reserved) = [] :=
        List.dropWhile_eq_nil_iff.2 (by simpa using hall)
      cases hnil.symm.trans h
    simp [hne]

theorem map_text_toList {separator : Char} (chain : Chain separator) :
    chain.toList.map Piece.text = chain.row.toList := rfl

theorem text_mem_row {separator : Char} {chain : Chain separator} {piece : Piece}
    (h : piece ∈ chain.toList) : piece.text ∈ chain.row.toList := by
  rw [← map_text_toList]
  exact List.mem_map_of_mem h

theorem mapM_toList_eq_ok_iff {separator : Char} {chain : Chain separator} {P : Text → Prop}
    {f : Piece → Except BodyFault Text} {ts : List Text}
    (hf : ∀ piece t, f piece = .ok t ↔ P piece.text ∧ piece.text.trim = t) :
    chain.toList.mapM f = .ok ts ↔
      (∀ t ∈ chain.row.toList, P t) ∧ chain.row.toList.map Text.trim = ts := by
  rw [mapM_eq_ok_iff_of_iff hf, ← map_text_toList, List.map_map, List.forall_mem_map]
  rfl

theorem isVoid_row_iff {chain : Chain ','} :
    chain.row.IsVoid ↔ chain.others = [] ∧ chain.first.text.trim = [] := by
  rw [Text.trim_eq_nil_iff]
  simp [Row.IsVoid, Chain.row, Text.AllBlank]

theorem argumentsOf_eq_ok_iff {chain : Chain ','} {ts : List Text} :
    argumentsOf chain = .ok ts ↔
      (chain.row.IsVoid ∨ ∀ t ∈ chain.row.toList, ¬ t.AllBlank) ∧
        (if chain.row.IsVoid then [] else chain.row.toList.map Text.trim) = ts := by
  rw [argumentsOf]
  simp only [← isVoid_row_iff]
  by_cases hvoid : chain.row.IsVoid
  · simp [hvoid]
  · have htrimmed : chain.toList.mapM (Piece.trimmed .argument) = .ok ts ↔
        (∀ t ∈ chain.row.toList, ¬ t.AllBlank) ∧ chain.row.toList.map Text.trim = ts :=
      mapM_toList_eq_ok_iff (P := fun t => ¬ t.AllBlank) fun _ _ => trimmed_eq_ok_iff_not_allBlank
    simp [hvoid, htrimmed]

theorem decode_call_eq_ok_iff {reserved : Text} {written : WrittenCall} {call : Call} :
    written.decode reserved = .ok call ↔
      written.stage.IsMeaningful reserved ∧ written.stage.call = call := by
  simp only [WrittenCall.decode, bind_eq_ok_iff, nameOf_eq_ok_iff_isFit, argumentsOf_eq_ok_iff]
  constructor
  · rintro ⟨name, ⟨hname, rfl⟩, ts, ⟨hts, rfl⟩, hcall⟩
    cases hcall
    exact ⟨⟨hname, hts⟩, rfl⟩
  · rintro ⟨⟨hname, hts⟩, rfl⟩
    exact ⟨_, ⟨hname, rfl⟩, _, ⟨hts, rfl⟩, rfl⟩

theorem decode_body_eq_ok_iff {reserved : Text} {written : WrittenBody} {body : Body} :
    written.decode reserved = .ok body ↔
      written.spelling.IsMeaningful reserved ∧ written.spelling.body = body := by
  simp only [WrittenBody.decode, bind_eq_ok_iff]
  constructor
  · rintro ⟨path, hpath, pipeline, hpipeline, hbody⟩
    cases hbody
    rcases (mapM_toList_eq_ok_iff fun _ _ => nameOf_eq_ok_iff_isFit).1 hpath with ⟨hfit, rfl⟩
    rcases (mapM_eq_ok_iff_of_iff fun _ _ => decode_call_eq_ok_iff).1 hpipeline with ⟨hcalls, rfl⟩
    refine ⟨⟨hfit, List.forall_mem_map.2 hcalls⟩, ?_⟩
    simp [Spelling.body, WrittenBody.spelling]
  · rintro ⟨⟨hfit, hcalls⟩, rfl⟩
    refine ⟨_, (mapM_toList_eq_ok_iff fun _ _ => nameOf_eq_ok_iff_isFit).2 ⟨hfit, rfl⟩, _,
      (mapM_eq_ok_iff_of_iff fun _ _ => decode_call_eq_ok_iff).2
        ⟨List.forall_mem_map.1 hcalls, rfl⟩, ?_⟩
    simp [Spelling.body, WrittenBody.spelling, pure, Except.pure]

theorem parse_eq_ok_iff {text reserved : Text} {body : Body} :
    Body.parse text reserved = .ok body ↔
      ∃ s : Spelling,
        s.text = text ∧ s.IsGrammatical ∧ s.IsMeaningful reserved ∧ s.body = body := by
  simp only [Body.parse, bind_eq_ok_iff, Grammar.read_body_eq_ok_iff, decode_body_eq_ok_iff]
  constructor
  · rintro ⟨_, ⟨s, hs, rfl, rfl⟩, hmeaning, rfl⟩
    rw [spelling_place] at hmeaning ⊢
    exact ⟨s, rfl, hs, hmeaning, rfl⟩
  · rintro ⟨s, rfl, hs, hmeaning, rfl⟩
    refine ⟨_, ⟨s, hs, rfl, rfl⟩, ?_, ?_⟩
    · rwa [spelling_place]
    · rw [spelling_place]

/-- A text is read as a body just if it spells that body, and it spells it in one way. -/
theorem parse_iff_spelling_unique (text reserved : Text) :
    (∀ body, Body.parse text reserved = .ok body ↔
      ∃ s : Spelling, s.text = text ∧ s.IsGrammatical ∧ s.IsMeaningful reserved ∧ s.body = body) ∧
    ∀ s s' : Spelling, s.IsGrammatical → s'.IsGrammatical → s.text = text → s'.text = text →
      s = s' := by
  refine ⟨fun body => parse_eq_ok_iff, fun s s' hs hs' hstext hstext' => ?_⟩
  exact Grammar.eq_of_text_eq hs hs' (hstext.trans hstext'.symm)

/-- Points and colons inside an argument, blanks around every piece, and one void argument. -/
theorem parse_iff_spelling_unique_pipeline :
    ∃ s : Spelling, s.text = "a.b :d(m.Y:s ,x) :u( )\t:v()".toList ∧ s.IsGrammatical ∧
      Body.parse "a.b :d(m.Y:s ,x) :u( )\t:v()".toList ['[', ']'] =
        .ok ⟨[['a'], ['b']], [⟨['d'], ["m.Y:s".toList, ['x']]⟩, ⟨['u'], []⟩, ⟨['v'], []⟩]⟩ ∧
      (s.place 0).spelling = s := by
  let s : Spelling := ⟨⟨['a'], ["b ".toList]⟩,
    [⟨['d'], ⟨"m.Y:s ".toList, [['x']]⟩, [' ']⟩, ⟨['u'], ⟨[' '], []⟩, ['\t']⟩,
      ⟨['v'], ⟨[], []⟩, []⟩]⟩
  have hs : s.IsGrammatical := by decide
  have hwitness := parse_iff_spelling_unique s.text ['[', ']']
  refine ⟨s, by decide, hs, (hwitness.1 _).2 ⟨s, rfl, hs, by decide, by decide⟩, ?_⟩
  exact hwitness.2 _ _ (by decide) hs (by decide) rfl

end Stencil
