import Stencil.Proofs.Body.Faulty
import Stencil.Proofs.Body.Frame

/-! # Beginnings of bodies

What stands in front of the place that is blamed is the beginning of a body. Where the grammar gives
up, a name or a bare call is all that is missing. Where a piece is at fault, the piece up to there
and one plain character are faultless, and the body can be closed behind them.
-/

namespace Stencil

/-- What stands in front of the place begins a text with the property. -/
def Text.IsViable (t : Text) (place : Nat) (P : Text → Prop) : Prop :=
  ∃ read rest more, t = read ++ rest ∧ read.width = place ∧ P (read ++ more)

/-- The character may stand in any piece, and no piece that holds it is blank. -/
def IsPlain (reserved : Text) (c : Char) : Prop :=
  c ∉ reserved ∧ c ∉ ['.', ':', '(', ')', ','] ∧ Text.isBlank c = false

instance (reserved : Text) (c : Char) : Decidable (IsPlain reserved c) :=
  inferInstanceAs (Decidable (_ ∧ _ ∧ _))

theorem Text.IsViable.behind {t front : Text} {place : Nat} {P Q : Text → Prop}
    (h : t.IsViable place P) (hQ : ∀ u, P u → Q (front ++ u)) :
    (front ++ t).IsViable (front.width + place) Q := by
  obtain ⟨read, rest, more, rfl, rfl, hP⟩ := h
  refine ⟨front ++ read, rest, more, by simp, by simp, ?_⟩
  rw [List.append_assoc]
  exact hQ _ hP

section Missing

variable {text : Text} {start place : Nat} {rule : Rule}

def SpellsStages (t : Text) : Prop :=
  ∃ stages : List Stage, (∀ stage ∈ stages, stage.IsGrammatical) ∧
    (stages.flatMap fun stage => ':' :: stage.text) = t

def SpellsBody (t : Text) : Prop := ∃ s : Spelling, s.IsGrammatical ∧ s.text = t

theorem isViable_colon (rest : Text) : Text.IsViable (':' :: rest) 1 SpellsStages := by
  refine ⟨[':'], rest, "f()".toList, rfl, rfl, [⟨['f'], ⟨[], []⟩, []⟩], ?_, rfl⟩
  simp only [List.forall_mem_singleton]
  decide

theorem MissingCall.isViable (h : MissingCall start text place rule) :
    ∃ n, place = start + n ∧ text.IsViable n SpellsStages := by
  induction h with
  | @atEnd start rest _ _ => exact ⟨0, rfl, [], rest, [], rfl, rfl, [], by simp, rfl⟩
  | @name start rest _ => exact ⟨1, rfl, isViable_colon rest⟩
  | @call start rest _ _ => exact ⟨1, rfl, isViable_colon rest⟩
  | @later start stage rest place rule hstage _ _ ih =>
    obtain ⟨n, rfl, hviable⟩ := ih
    have hwidth : Text.width (':' :: stage.text) = 1 + stage.text.width := rfl
    refine ⟨1 + stage.text.width + n, by omega, ?_⟩
    rw [← List.cons_append, ← hwidth]
    apply hviable.behind
    intro u hu
    obtain ⟨stages, hstages, rfl⟩ := hu
    exact ⟨stage :: stages, List.forall_mem_cons.2 ⟨hstage, hstages⟩, rfl⟩

/-- Up to where something is missing the text begins a body. -/
theorem Missing.isViable (h : Missing text place rule) : text.IsViable place SpellsBody := by
  cases h with
  | path => exact ⟨[], text, ['a'], rfl, rfl, ⟨⟨['a'], []⟩, []⟩, by decide, rfl⟩
  | @segment row rest hlongest heq =>
    refine ⟨row.text '.' ++ ['.'], rest, ['a'], by simp [heq], Text.width_append _ _, ?_⟩
    refine ⟨⟨⟨row.first, row.others ++ [['a']]⟩, []⟩, ⟨?_, by simp⟩, ?_⟩
    · have hrow := hlongest.1.1
      simp only [Row.toList, List.forall_mem_cons] at hrow
      simp only [Row.toList, List.forall_mem_cons, List.forall_mem_append]
      exact ⟨hrow.1, hrow.2, by decide, by simp⟩
    · simp [Spelling.text, Row.text]
  | @behindPath row rest _ _ hlongest heq _ hcall =>
    obtain ⟨n, rfl, hviable⟩ := hcall.isViable
    rw [heq]
    apply hviable.behind
    intro u hu
    obtain ⟨stages, hstages, rfl⟩ := hu
    exact ⟨⟨row, stages⟩, ⟨hlongest.1.1, hstages⟩, rfl⟩

end Missing

namespace Frame

variable {frame : Frame} {kind : PieceKind} {t u : Text}

theorem token_cut_of_token_eq (h : frame.token t = .piece kind u) {v : Text}
    (hv : ¬ v.AllBlank) : frame.cut.token v = .piece kind v := by
  cases frame with
  | atSegment before after stages =>
    cases h
    rfl
  | inStage path before frame after =>
    cases frame with
    | atName arguments trailing =>
      cases h
      rfl
    | atArgument name before after trailing =>
      have hnever : ¬ (Row.around before v []).IsVoid :=
        fun hvoid => hv (Row.isVoid_around_iff.1 hvoid).2.2
      obtain rfl : kind = .argument := by
        simp only [token, Stage.Frame.token, Row.argumentToken] at h
        split at h <;> cases h
        rfl
      exact if_neg hnever
    | atTrailing name arguments => cases h

/-- What closes a spelling is grammatical and holds no pieces. -/
theorem of_mem_back_cut {token : Token} (h : token ∈ frame.cut.back) :
    token.IsGrammatical ∧ ∀ start, token.part? start = none := by
  have hclose : token ∈ [.separator '(', .void [], .separator ')', .layout []] := by
    cases frame with
    | atSegment before after stages => simp [cut, back, Row.following] at h
    | inStage path before frame after =>
      cases frame with
      | atName arguments trailing => simpa [cut, back, Stage.Frame.cut, Stage.Frame.back,
          Row.argumentTokens, Row.IsVoid, Text.AllBlank] using h
      | atArgument name before after trailing =>
        have hmem : token ∈ [.separator ')', .layout []] := by
          simpa [cut, back, Stage.Frame.cut, Stage.Frame.back, Row.following] using h
        exact List.mem_of_mem_drop (i := 2) hmem
      | atTrailing name arguments => simp [cut, back, Stage.Frame.cut, Stage.Frame.back] at h
  simp only [List.mem_cons, List.not_mem_nil, or_false] at hclose
  rcases hclose with rfl | rfl | rfl | rfl <;>
    simp [Token.IsGrammatical, Token.part?, IsArgument, IsLayout]

end Frame

theorem partsFrom_eq_nil (start : Nat) {tokens : List Token}
    (h : ∀ token ∈ tokens, ∀ start, token.part? start = none) : partsFrom start tokens = [] := by
  induction tokens generalizing start with
  | nil => rfl
  | cons token tokens ih =>
    rw [List.forall_mem_cons] at h
    rw [partsFrom, h.1 start, ih _ h.2]
    rfl

variable {text reserved : Text} {written : WrittenBody} {fault : BodyFault}

/-- Cut short behind a faultless piece, with nothing at fault in front of it, a body can be read. -/
theorem Frame.exists_parse_cut {frame : Frame} {kind : PieceKind} {t u v : Text}
    (htoken : frame.token t = .piece kind u) (hfront : ∀ token ∈ frame.front, token.IsGrammatical)
    (hearlier : ∀ part ∈ partsFrom 0 frame.front, ¬ part.IsFaulty reserved)
    (hadmits : kind.Admits v) (hv : ∀ start, ¬ Part.IsFaulty reserved ⟨kind, ⟨start, v⟩⟩) :
    ∃ found, Body.parse (Token.join frame.front ++ (v ++ Token.join frame.cut.back)) reserved =
      .ok found := by
  let s : Spelling := frame.cut.fill v
  have hblank : ¬ v.AllBlank := fun hblank => hv 0 (.inr hblank)
  have htokens : s.tokens = frame.front ++ .piece kind v :: frame.cut.back := by
    rw [tokens_fill, token_cut_of_token_eq htoken hblank, front_cut]
  have hs : s.IsGrammatical := by
    rw [Spelling.isGrammatical_iff, htokens, List.forall_mem_append, List.forall_mem_cons]
    exact ⟨hfront, hadmits, fun token h => (of_mem_back_cut h).1⟩
  have htext : s.text = Token.join frame.front ++ (v ++ Token.join frame.cut.back) := by
    rw [text_fill, front_cut]
  rw [← htext]
  apply (exists_parse_eq_ok_iff (Grammar.read_body_eq_ok_iff.2 ⟨s, hs, rfl, rfl⟩)).2
  rw [Spelling.parts_place, htokens, partsFrom_append, partsFrom,
    partsFrom_eq_nil _ fun token h => (of_mem_back_cut h).2, List.append_nil,
    List.forall_mem_append]
  exact ⟨hearlier, List.forall_mem_singleton.2 (hv _)⟩

/-- What stands in front of a fault of a piece is the beginning of one that is not at fault. -/
theorem Part.Report.exists_eq_append {part : Part} {message : String}
    (h : part.Report reserved fault message) :
    ∃ before after, part.piece.text = before ++ after ∧
      fault.offset = part.piece.start + before.width ∧
      (part.kind ≠ .argument → ∀ c ∈ before, c ∉ reserved) := by
  cases h with
  | @reserved before after c _ htext hbefore _ =>
    exact ⟨before, c :: after, htext, rfl, fun _ => hbefore⟩
  | blank => exact ⟨[], part.piece.text, rfl, rfl, by simp⟩

theorem PieceKind.Admits.append_plain {kind : PieceKind} {before after : Text} {x : Char}
    (h : kind.Admits (before ++ after)) (hx : IsPlain reserved x) :
    kind.Admits (before ++ [x]) := by
  have hname : IsName (before ++ after) → IsName (before ++ [x]) := by
    intro hname
    refine ⟨by simp, List.forall_mem_append.2 ⟨?_, by simpa using hx.2.1⟩⟩
    exact fun c hc => hname.2 c (List.mem_append_left after hc)
  cases kind with
  | segment => exact hname h
  | functionName => exact hname h
  | argument =>
    have hplain := hx.2.1
    simp only [List.mem_cons, List.not_mem_nil, not_or] at hplain
    refine List.forall_mem_append.2 ⟨fun c hc => h c (List.mem_append_left after hc), ?_⟩
    simp [hplain]

theorem Part.not_isFaulty_append_plain {kind : PieceKind} {before : Text} {x : Char}
    (hbefore : kind ≠ .argument → ∀ c ∈ before, c ∉ reserved) (hx : IsPlain reserved x)
    (start : Nat) : ¬ Part.IsFaulty reserved ⟨kind, ⟨start, before ++ [x]⟩⟩ := by
  intro hfaulty
  rcases hfaulty with ⟨hkind, c, hc, hreserved⟩ | hblank
  · rcases List.mem_append.1 hc with hc | hc
    · exact hbefore hkind c hc hreserved
    · exact hx.1 (List.mem_singleton.1 hc ▸ hreserved)
  · have hxblank := hblank x (by simp)
    rw [hx.2.2] at hxblank
    cases hxblank

/-- A body that is refused for a piece begins like one that is read, up to the place that is
reported. -/
theorem exists_parse_eq_ok_of_faulty (hread : Grammar.read Grammar.body text = .ok written)
    (hparse : Body.parse text reserved = .error fault) :
    ∃ read rest, text = read ++ rest ∧ read.width = fault.offset ∧
      ∀ x, IsPlain reserved x → ∃ more found, Body.parse (read ++ more) reserved = .ok found := by
  obtain ⟨s, hs, rfl, rfl⟩ := Grammar.read_body_eq_ok_iff.1 hread
  obtain ⟨part, hfind, hreport⟩ := (parse_eq_error_iff_find? hread).1 hparse
  obtain ⟨-, earlier, later, hparts, hearlier⟩ := List.find?_eq_some_iff_append.1 hfind
  rw [Spelling.parts_place] at hparts
  obtain ⟨front, back, htokens, rfl, hstart⟩ := exists_of_partsFrom_eq_append hparts
  -- the first piece at fault is left open, and every piece in front of it is faultless
  obtain ⟨frame, t, rfl, htoken, rfl, rfl⟩ := s.exists_frame htokens (by simp)
  obtain ⟨before, after, htext, hoffset, hbefore⟩ := hreport.exists_eq_append
  rw [Spelling.isGrammatical_iff, htokens, htext, List.forall_mem_append,
    List.forall_mem_cons] at hs
  refine ⟨Token.join frame.front ++ before, after ++ Token.join frame.back, ?_, ?_, ?_⟩
  · rw [← Spelling.join_tokens, htokens, htext]
    simp [Token.text]
  · simp [hoffset, hstart]
  · intro x hx
    obtain ⟨found, hfound⟩ := Frame.exists_parse_cut htoken.symm hs.1 (by simpa using hearlier)
      (hs.2.1.append_plain hx) (Part.not_isFaulty_append_plain hbefore hx)
    exact ⟨x :: Token.join frame.cut.back, found, by simpa using hfound⟩

/-- Whatever a text is refused for, it begins like a body up to the place that is reported, and like
one that is read if the text itself is a body. -/
theorem exists_read_of_parse_eq_error (hparse : Body.parse text reserved = .error fault) :
    ∃ read rest, text = read ++ rest ∧ read.width = fault.offset ∧
      (∃ more written, Grammar.read Grammar.body (read ++ more) = .ok written) ∧
      ((∃ written, Grammar.read Grammar.body text = .ok written) → (∃ x, IsPlain reserved x) →
        ∃ more found, Body.parse (read ++ more) reserved = .ok found) := by
  cases hread : Grammar.read Grammar.body text with
  | ok written =>
    obtain ⟨read, rest, htext, hplace, hcomplete⟩ := exists_parse_eq_ok_of_faulty hread hparse
    refine ⟨read, rest, htext, hplace, ⟨rest, written, htext ▸ hread⟩, fun _ hplain => ?_⟩
    obtain ⟨x, hx⟩ := hplain
    exact hcomplete x hx
  | error found =>
    obtain ⟨place, rule, hmissing, rfl⟩ := read_body_eq_error_iff.1 hread
    obtain rfl : fault = ⟨place, .expected [rule]⟩ := by
      rw [Body.parse, hread] at hparse
      cases hparse
      rfl
    obtain ⟨read, rest, more, htext, hplace, s, hs, hspelled⟩ := hmissing.isViable
    refine ⟨read, rest, htext, hplace, ⟨more, s.place 0, ?_⟩, by simp⟩
    exact Grammar.read_body_eq_ok_iff.2 ⟨s, hs, hspelled, rfl⟩

end Stencil
