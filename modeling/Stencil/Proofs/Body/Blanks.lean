import Stencil.Proofs.Body.Frame
import Stencil.Proofs.Body.Report
import Stencil.Proofs.Body.Reserved

/-! # Blanks between tokens

A blank character between two tokens belongs to the piece or the layout beside it. Pieces lose their
blanks when they are trimmed, whatever these are, but layout is made of four characters only. So a
body stays what it is unless another blank character is put beside layout: reading stops there.
-/

namespace Stencil

namespace Text

theorem trimEnd_append_of_isBlank {c : Char} (h : isBlank c = true) (t : Text) :
    trimEnd (t ++ [c]) = trimEnd t := by
  rw [trimEnd, trimEnd, List.reverse_append, List.reverse_singleton, List.singleton_append,
    List.dropWhile_cons_of_pos h]

theorem trim_append_of_isBlank {c : Char} (h : isBlank c = true) (t : Text) :
    trim (t ++ [c]) = trim t := by
  induction t with
  | nil => exact trim_cons_of_isBlank h []
  | cons x t ih =>
    by_cases hx : isBlank x = true
    · rw [List.cons_append, trim_cons_of_isBlank hx, trim_cons_of_isBlank hx, ih]
    · have hstart : ∀ t : Text, trimStart (x :: t) = x :: t :=
        fun t => List.dropWhile_cons_of_neg hx
      rw [trim, trim, List.cons_append, hstart, hstart, ← List.cons_append,
        trimEnd_append_of_isBlank h]

theorem allBlank_congr {t t' : Text} (h : t'.trim = t.trim) : t'.AllBlank ↔ t.AllBlank := by
  rw [AllBlank, AllBlank, ← trim_eq_nil_iff, ← trim_eq_nil_iff, h]

end Text

def Token.isLayout : Token → Bool
  | layout _ => true
  | _ => false

theorem Token.IsGrammatical.isLayout_text {token : Token} (h : token.IsGrammatical)
    (htoken : token.isLayout = true) : IsLayout token.text := by
  cases token with
  | layout t => exact h
  | _ => cases htoken

def IsExtended (w : Char) (t t' : Text) : Prop := t' = w :: t ∨ t' = t ++ [w]

namespace IsExtended

variable {w : Char} {t t' : Text}

theorem trim_eq (h : IsExtended w t t') (hw : Text.isBlank w = true) : t'.trim = t.trim := by
  rcases h with rfl | rfl
  · exact Text.trim_cons_of_isBlank hw t
  · exact Text.trim_append_of_isBlank hw t

theorem ne_nil (h : IsExtended w t t') : t' ≠ [] := by
  rcases h with rfl | rfl <;> simp

theorem forall_mem_iff (h : IsExtended w t t') {P : Char → Prop} :
    (∀ c ∈ t', P c) ↔ P w ∧ ∀ c ∈ t, P c := by
  rcases h with rfl | rfl
  · exact List.forall_mem_cons
  · rw [List.forall_mem_append, List.forall_mem_singleton, and_comm]

end IsExtended

section Fill

variable {reserved : Text} {w : Char} {t t' : Text}

theorem IsFit.of_isExtended (h : IsFit reserved t) (ht : IsExtended w t t')
    (hw : Text.isBlank w = true) (hreserved : w ∉ reserved) : IsFit reserved t' :=
  ⟨ht.forall_mem_iff.2 ⟨hreserved, h.1⟩, mt (Text.allBlank_congr (ht.trim_eq hw)).1 h.2⟩

theorem IsName.of_isExtended (h : IsName t) (ht : IsExtended w t t')
    (hw : Text.isBlank w = true) : IsName t' :=
  ⟨ht.ne_nil, ht.forall_mem_iff.2 ⟨Text.not_mem_structural_of_isBlank hw, h.2⟩⟩

theorem IsArgument.of_isExtended (h : IsArgument t) (ht : IsExtended w t t')
    (hw : Text.isBlank w = true) : IsArgument t' := by
  have hstructural := Text.not_mem_structural_of_isBlank hw
  simp only [List.mem_cons, List.not_mem_nil, not_or] at hstructural
  exact ht.forall_mem_iff.2 ⟨by simp [hstructural], h⟩

theorem Row.isGrammatical_argumentToken_iff {before after : List Text} :
    (argumentToken before t after).IsGrammatical ↔ IsArgument t := by
  rw [argumentToken]
  split <;> rfl

theorem Row.isVoid_around_congr {before after : List Text} (h : t'.trim = t.trim) :
    (around before t' after).IsVoid ↔ (around before t after).IsVoid := by
  rw [isVoid_around_iff, isVoid_around_iff, Text.allBlank_congr h]

namespace Stage.Frame

variable {frame : Stage.Frame}

theorem call_fill_congr (h : t'.trim = t.trim) : (frame.fill t').call = (frame.fill t).call := by
  cases frame with
  | atName arguments trailing => rw [fill, fill, call, call, h]
  | atArgument name before after trailing =>
    simp [fill, call, Row.isVoid_around_congr h, Row.toList_around, h]
  | atTrailing name arguments => rfl

theorem isMeaningful_fill (h : (frame.fill t).IsMeaningful reserved) (ht : IsExtended w t t')
    (hw : Text.isBlank w = true) (hreserved : w ∉ reserved) :
    (frame.fill t').IsMeaningful reserved := by
  cases frame with
  | atName arguments trailing => exact ⟨h.name.of_isExtended ht hw hreserved, h.arguments⟩
  | atArgument name before after trailing =>
    have htrim := ht.trim_eq hw
    refine ⟨h.name, h.arguments.imp (Row.isVoid_around_congr htrim).2 ?_⟩
    simp only [fill, Row.toList_around, List.forall_mem_append, List.forall_mem_cons]
    rw [Text.allBlank_congr htrim]
    exact id
  | atTrailing name arguments => exact ⟨h.name, h.arguments⟩

end Stage.Frame

namespace Frame

variable {frame : Frame}

theorem body_fill_congr (h : t'.trim = t.trim) : (frame.fill t').body = (frame.fill t).body := by
  cases frame with
  | atSegment before after stages => simp [fill, Spelling.body, Row.toList_around, h]
  | inStage path before frame after =>
    simp [fill, Spelling.body, Stage.Frame.call_fill_congr h]

theorem isMeaningful_fill (h : (frame.fill t).IsMeaningful reserved) (ht : IsExtended w t t')
    (hw : Text.isBlank w = true) (hreserved : w ∉ reserved) :
    (frame.fill t').IsMeaningful reserved := by
  cases frame with
  | atSegment before after stages =>
    refine ⟨?_, h.stages⟩
    have hpath := h.path
    simp only [fill, Row.toList_around, List.forall_mem_append, List.forall_mem_cons] at hpath ⊢
    exact ⟨hpath.1, hpath.2.1.of_isExtended ht hw hreserved, hpath.2.2⟩
  | inStage path before frame after =>
    refine ⟨h.path, ?_⟩
    have hstages := h.stages
    simp only [fill, List.forall_mem_append, List.forall_mem_cons] at hstages ⊢
    exact ⟨hstages.1, Stage.Frame.isMeaningful_fill hstages.2.1 ht hw hreserved, hstages.2.2⟩

/-- A blank may stand in every token that is grammatical, and in layout if it is layout itself. -/
theorem isGrammatical_token (h : (frame.token t).IsGrammatical) (ht : IsExtended w t t')
    (hw : Text.isBlank w = true) (hfit : IsLayout [w] ∨ (frame.token t).isLayout = false) :
    (frame.token t').IsGrammatical := by
  cases frame with
  | atSegment before after stages => exact IsName.of_isExtended h ht hw
  | inStage path before frame after =>
    cases frame with
    | atName arguments trailing => exact IsName.of_isExtended h ht hw
    | atArgument name before after trailing =>
      apply Row.isGrammatical_argumentToken_iff.2
      exact (Row.isGrammatical_argumentToken_iff.1 h).of_isExtended ht hw
    | atTrailing name arguments =>
      have hlayout : IsLayout [w] := by
        apply hfit.resolve_right
        simp [token, Stage.Frame.token, Token.isLayout]
      exact ht.forall_mem_iff.2 ⟨hlayout w (by simp), h⟩

/-- A body with a blank more in one of its tokens is read as the same body. -/
theorem parse_fill (hs : (frame.fill t).IsGrammatical) (h : (frame.fill t).IsMeaningful reserved)
    (ht : IsExtended w t t') (hw : Text.isBlank w = true) (hreserved : w ∉ reserved)
    (hfit : IsLayout [w] ∨ (frame.token t).isLayout = false) :
    Body.parse (frame.fill t').text reserved = .ok (frame.fill t).body := by
  apply parse_eq_ok_iff.2
  have hbody := @body_fill_congr _ _ frame (ht.trim_eq hw)
  refine ⟨frame.fill t', rfl, ?_, isMeaningful_fill h ht hw hreserved, hbody⟩
  rw [Spelling.isGrammatical_iff, tokens_fill, List.forall_mem_append, List.forall_mem_cons] at hs ⊢
  exact ⟨hs.1, isGrammatical_token hs.2.1 ht hw hfit, hs.2.2⟩

end Frame

end Fill

/-- The tokens begin and end with something between separators, and so does what two separators have
between them. -/
inductive Alternates : List Token → Prop where
  | single {token : Token} : (∀ c, token ≠ .separator c) → Alternates [token]
  | cons {token : Token} {c : Char} {tokens : List Token} : (∀ c, token ≠ .separator c) →
      Alternates tokens → Alternates (token :: .separator c :: tokens)

namespace Alternates

variable {tokens more before after : List Token}

theorem append (h : Alternates tokens) (hmore : Alternates more) (c : Char) :
    Alternates (tokens ++ .separator c :: more) := by
  induction h with
  | single htoken => exact .cons htoken hmore
  | cons htoken _ ih => exact .cons htoken ih

theorem append_flatMap {α : Type} {part : α → List Token} (c : Char) (as : List α)
    (h : Alternates tokens) (hparts : ∀ a, Alternates (part a)) :
    Alternates (tokens ++ as.flatMap fun a => .separator c :: part a) := by
  induction as generalizing tokens with
  | nil => simpa using h
  | cons a as ih =>
    have hlater := ih (h.append (hparts a) c)
    simpa using hlater

theorem exists_beside (h : Alternates (before ++ after)) :
    (∃ token rest, after = token :: rest ∧ ∀ c, token ≠ .separator c) ∨
      ∃ rest token, before = rest ++ [token] ∧ ∀ c, token ≠ .separator c := by
  generalize htokens : before ++ after = tokens at h
  induction h generalizing before with
  | @single token htoken =>
    rcases List.append_eq_singleton_iff.1 htokens with ⟨rfl, rfl⟩ | ⟨rfl, rfl⟩
    · exact .inl ⟨token, [], rfl, htoken⟩
    · exact .inr ⟨[], token, rfl, htoken⟩
  | @cons token c tokens htoken _ ih =>
    match before with
    | [] => exact .inl ⟨token, _, htokens, htoken⟩
    | [first] =>
      obtain ⟨rfl, -⟩ := List.cons.inj htokens
      exact .inr ⟨[], first, rfl, htoken⟩
    | first :: next :: before =>
      simp only [List.cons_append, List.cons.injEq] at htokens
      obtain ⟨rfl, rfl, hlater⟩ := htokens
      rcases ih hlater with hafter | ⟨rest, other, rfl, hother⟩
      · exact .inl hafter
      · exact .inr ⟨first :: .separator c :: rest, other, rfl, hother⟩

end Alternates

theorem Row.alternates_tokens (kind : PieceKind) (separator : Char) (row : Row) :
    Alternates (row.tokens kind separator) := by
  have hpiece : ∀ t, Alternates [.piece kind t] := fun t => .single (by simp)
  exact (hpiece row.first).append_flatMap separator row.others hpiece

theorem Row.alternates_argumentTokens (row : Row) : Alternates row.argumentTokens := by
  rw [argumentTokens]
  split
  · exact .single (by simp)
  · exact row.alternates_tokens .argument ','

theorem Stage.alternates_tokens (stage : Stage) : Alternates stage.tokens := by
  have hclose : Alternates [.layout stage.trailing] := .single (by simp)
  exact .cons (by simp) (stage.arguments.alternates_argumentTokens.append hclose ')')

theorem Spelling.alternates_tokens (s : Spelling) : Alternates s.tokens :=
  (s.path.alternates_tokens .segment '.').append_flatMap ':' s.stages Stage.alternates_tokens

theorem missingCall_of_stages {stages : List Stage} {c : Char} (start : Nat) (rest : Text)
    (hstages : ∀ stage ∈ stages, stage.IsGrammatical) (hlayout : ¬ IsLayout [c]) (hc : c ≠ ':') :
    MissingCall start ((stages.flatMap fun stage => ':' :: stage.text) ++ c :: rest)
      (start + Text.width (stages.flatMap fun stage => ':' :: stage.text)) .endOfInput := by
  induction stages generalizing start with
  | nil => exact .atEnd (List.cons_ne_nil c rest) (by simpa using hc)
  | cons stage stages ih =>
    rw [List.forall_mem_cons] at hstages
    -- the character is no layout, so the stage ends where its own layout does
    have hlater := ih (start + 1 + stage.text.width) hstages.2
    have hwidth : start + Text.width ((stage :: stages).flatMap fun stage => ':' :: stage.text) =
        start + 1 + stage.text.width +
          Text.width (stages.flatMap fun stage => ':' :: stage.text) := by
      have hcolon : Char.utf8Size ':' = 1 := rfl
      simp [hcolon]
      omega
    rw [hwidth, List.flatMap_cons, List.cons_append, List.cons_append, List.append_assoc]
    refine .later hstages.1 ?_ hlater
    cases stages with
    | nil => simpa using hlayout
    | cons next stages => simp [IsLayout]

/-- Behind a stage nothing may stand but layout and a colon. -/
theorem parse_append_of_stages {s : Spelling} {reserved : Text} {c : Char} (rest : Text)
    (hs : s.IsGrammatical) (hstages : s.stages ≠ []) (hlayout : ¬ IsLayout [c]) (hc : c ≠ ':') :
    Body.parse (s.text ++ c :: rest) reserved = .error ⟨s.text.width, .expected [.endOfInput]⟩ := by
  obtain ⟨path, stages⟩ := s
  obtain ⟨stage, stages, rfl⟩ := List.exists_cons_of_ne_nil hstages
  let behind : Text := ((stage :: stages).flatMap fun stage => ':' :: stage.text) ++ c :: rest
  have hpath : path.IsLongestPathOf (path.text '.' ++ behind) := by
    apply Row.isLongestPathOf_iff.2
    refine ⟨hs.path, behind, rfl, Text.stops_cons_iff.2 rfl, fun more hmore => ?_⟩
    simp [behind] at hmore
  have hmissing : Missing (path.text '.' ++ behind) _ .endOfInput :=
    .behindPath hpath rfl (by simp [behind]) (missingCall_of_stages _ rest hs.stages hlayout hc)
  have hread := read_body_eq_error_iff.2 ⟨_, _, hmissing, rfl⟩
  have htext : Spelling.text ⟨path, stage :: stages⟩ ++ c :: rest = path.text '.' ++ behind :=
    List.append_assoc ..
  rw [Body.parse, htext, hread, Spelling.text, Text.width_append]
  rfl

/-- Cut short in the layout behind a stage, a spelling ends with this stage. -/
theorem Frame.cut_at_layout {frame : Frame} {t u : Text} (hs : (frame.fill t).IsGrammatical)
    (htoken : (frame.token t).isLayout = true) (hu : IsLayout u) :
    (frame.cut.fill u).IsGrammatical ∧ (frame.cut.fill u).stages ≠ [] ∧
      (frame.cut.fill u).text = Token.join frame.front ++ u := by
  cases frame with
  | atSegment before after stages => cases htoken
  | inStage path before frame after =>
    cases frame with
    | atName arguments trailing => cases htoken
    | atArgument name before after trailing =>
      simp only [token, Stage.Frame.token, Row.argumentToken] at htoken
      split at htoken <;> cases htoken
    | atTrailing name arguments =>
      have hstages := hs.stages
      simp only [fill, List.forall_mem_append, List.forall_mem_cons] at hstages
      obtain ⟨hbefore, hstage, -⟩ := hstages
      refine ⟨⟨hs.path, ?_⟩, by simp [cut, fill], ?_⟩
      · simp only [cut, fill, List.forall_mem_append, List.forall_mem_singleton]
        exact ⟨hbefore, hstage.name, hstage.arguments, hu⟩
      · rw [text_fill, front_cut]
        simp [cut, back, Stage.Frame.cut, Stage.Frame.back]

def AtLayout (before after : List Token) : Prop :=
  (∃ token ∈ before.getLast?, token.isLayout) ∨ ∃ token ∈ after.head?, token.isLayout

instance (before after : List Token) : Decidable (AtLayout before after) :=
  inferInstanceAs (Decidable (_ ∨ _))

section Insert

variable {s : Spelling} {reserved : Text} {before after : List Token} {w : Char}

theorem exists_stages_of_isLayout {front back : List Token} {token : Token} {u : Text}
    (hs : s.IsGrammatical) (htokens : s.tokens = front ++ token :: back)
    (htoken : token.isLayout = true) (hu : IsLayout u) :
    ∃ s' : Spelling, s'.IsGrammatical ∧ s'.stages ≠ [] ∧ s'.text = Token.join front ++ u := by
  have hcontent : ∀ c, token ≠ .separator c := by
    rintro c rfl
    cases htoken
  obtain ⟨frame, t, rfl, rfl, rfl, rfl⟩ := s.exists_frame htokens hcontent
  exact ⟨frame.cut.fill u, Frame.cut_at_layout hs htoken hu⟩

theorem exists_stages_of_atLayout (hs : s.IsGrammatical) (htokens : s.tokens = before ++ after)
    (h : AtLayout before after) :
    ∃ s' : Spelling, s'.IsGrammatical ∧ s'.stages ≠ [] ∧ s'.text = Token.join before := by
  rcases h with hbefore | hafter
  · obtain ⟨token, hlast, htoken⟩ := hbefore
    obtain ⟨front, rfl⟩ := List.getLast?_eq_some_iff.1 hlast
    rw [List.append_assoc, List.singleton_append] at htokens
    have hmem : token ∈ s.tokens := by simp [htokens]
    have hlayout := (Spelling.isGrammatical_iff.1 hs token hmem).isLayout_text htoken
    simpa using exists_stages_of_isLayout hs htokens htoken hlayout
  · obtain ⟨token, hfirst, htoken⟩ := hafter
    obtain ⟨back, rfl⟩ := List.head?_eq_some_iff.1 hfirst
    have hnil : IsLayout [] := by simp [IsLayout]
    simpa using exists_stages_of_isLayout hs htokens htoken hnil

theorem parse_extend {front back : List Token} {token : Token} {t : Text} (hs : s.IsGrammatical)
    (hmeaning : s.IsMeaningful reserved) (htokens : s.tokens = front ++ token :: back)
    (htoken : ∀ c, token ≠ .separator c) (ht : IsExtended w token.text t)
    (hw : Text.isBlank w = true) (hreserved : w ∉ reserved)
    (hfit : IsLayout [w] ∨ token.isLayout = false) :
    Body.parse (Token.join front ++ (t ++ Token.join back)) reserved = .ok s.body := by
  obtain ⟨frame, u, rfl, rfl, rfl, rfl⟩ := s.exists_frame htokens htoken
  rw [Frame.text_token] at ht
  rw [← Frame.text_fill]
  exact Frame.parse_fill hs hmeaning ht hw hreserved hfit

/-- Where it can be read, a blank goes to the token in front of it or behind it. -/
theorem parse_insert_of_fits (hs : s.IsGrammatical) (hmeaning : s.IsMeaningful reserved)
    (htokens : s.tokens = before ++ after) (hw : Text.isBlank w = true) (hreserved : w ∉ reserved)
    (hfit : IsLayout [w] ∨ ¬ AtLayout before after) :
    Body.parse (Token.join before ++ w :: Token.join after) reserved = .ok s.body := by
  have halternates : Alternates (before ++ after) := htokens ▸ s.alternates_tokens
  -- the token beside the place takes the blank, and it is layout only if the place is beside layout
  rcases halternates.exists_beside with ⟨token, back, rfl, htoken⟩ | ⟨front, token, rfl, htoken⟩
  · have hlayout : IsLayout [w] ∨ token.isLayout = false := by
      apply hfit.imp_right
      intro hbeside
      exact Bool.eq_false_iff.2 fun h => hbeside (.inr ⟨token, rfl, h⟩)
    have hextended := parse_extend hs hmeaning htokens htoken (.inl rfl) hw hreserved hlayout
    simpa using hextended
  · have hlayout : IsLayout [w] ∨ token.isLayout = false := by
      apply hfit.imp_right
      intro hbeside
      exact Bool.eq_false_iff.2 fun h => hbeside (.inl ⟨token, by simp, h⟩)
    rw [List.append_assoc, List.singleton_append] at htokens
    have hextended := parse_extend hs hmeaning htokens htoken (.inr rfl) hw hreserved hlayout
    simpa using hextended

/-- Beside layout a blank that is none itself is where the end of the text is missing. -/
theorem parse_insert_of_atLayout (hs : s.IsGrammatical) (htokens : s.tokens = before ++ after)
    (hw : Text.isBlank w = true) (hlayout : ¬ IsLayout [w]) (h : AtLayout before after) :
    Body.parse (Token.join before ++ w :: Token.join after) reserved =
      .error ⟨(Token.join before).width, .expected [.endOfInput]⟩ := by
  obtain ⟨s', hs', hstages, htext⟩ := exists_stages_of_atLayout hs htokens h
  have hcolon : w ≠ ':' := by
    rintro rfl
    exact Text.not_mem_structural_of_isBlank hw (by simp)
  rw [← htext]
  exact parse_append_of_stages _ hs' hstages hlayout hcolon

end Insert

/-- A body that can be read is spelt in one way. With a blank character more between two of its
tokens it is read as the same body, unless the place is beside layout and the character is not.
There the end of the text is missing. -/
theorem parse_insert_blank {text reserved : Text} {body : Body}
    (hparse : Body.parse text reserved = .ok body) :
    ∃ s : Spelling, (∀ other : Spelling, other.IsGrammatical ∧ other.text = text ↔ other = s) ∧
      ∀ (before after : List Token) (w : Char), s.tokens = before ++ after →
        Text.isBlank w = true → w ∉ reserved →
        Body.parse (Token.join before ++ w :: Token.join after) reserved =
          if IsLayout [w] ∨ ¬ AtLayout before after then .ok body
          else .error ⟨(Token.join before).width, .expected [.endOfInput]⟩ := by
  obtain ⟨s, rfl, hs, hmeaning, rfl⟩ := parse_eq_ok_iff.1 hparse
  refine ⟨s, fun other => ⟨fun h => Grammar.eq_of_text_eq h.1 hs h.2, ?_⟩, ?_⟩
  · rintro rfl
    exact ⟨hs, rfl⟩
  · intro before after w htokens hw hreserved
    split
    · next hfit => exact parse_insert_of_fits hs hmeaning htokens hw hreserved hfit
    · next hfit =>
      rw [not_or, not_not] at hfit
      exact parse_insert_of_atLayout hs htokens hw hfit.1 hfit.2

/-- A no-break space is trimmed in front of a colon behind the path, and cannot be read in front of
one behind a stage. -/
theorem parse_insert_blank_nonbreaking :
    Body.parse "a\u00a0:f():g()".toList "[]".toList = .ok ⟨[['a']], [⟨['f'], []⟩, ⟨['g'], []⟩]⟩ ∧
      Body.parse "a:f()\u00a0:g()".toList "[]".toList = .error ⟨5, .expected [.endOfInput]⟩ := by
  let s : Spelling := ⟨⟨['a'], []⟩, [⟨['f'], ⟨[], []⟩, []⟩, ⟨['g'], ⟨[], []⟩, []⟩]⟩
  have hs : s.IsGrammatical := by decide
  have hparse : Body.parse s.text "[]".toList = .ok s.body :=
    parse_eq_ok_iff.2 ⟨s, rfl, hs, by decide, rfl⟩
  obtain ⟨found, hunique, hinsert⟩ := parse_insert_blank hparse
  obtain rfl : s = found := (hunique s).1 ⟨hs, rfl⟩
  have hsplit : ∀ n, s.tokens = s.tokens.take n ++ s.tokens.drop n :=
    fun n => (List.take_append_drop n s.tokens).symm
  have hpath := hinsert _ _ '\u00a0' (hsplit 1) (by decide) (by decide)
  have hstage := hinsert _ _ '\u00a0' (hsplit 6) (by decide) (by decide)
  rw [if_pos (by decide)] at hpath
  rw [if_neg (by decide)] at hstage
  exact ⟨hpath, hstage⟩

/-- A blank character between two tokens does not always leave a body what it is. -/
theorem not_forall_parse_insert :
    ¬ ∀ (s : Spelling) (reserved : Text) (body : Body) (before after : List Token) (w : Char),
      s.IsGrammatical → Body.parse s.text reserved = .ok body → s.tokens = before ++ after →
      Text.isBlank w = true → w ∉ reserved →
      Body.parse (Token.join before ++ w :: Token.join after) reserved = .ok body := by
  intro h
  let s : Spelling := ⟨⟨['a'], []⟩, [⟨['f'], ⟨[], []⟩, []⟩]⟩
  have hs : s.IsGrammatical := by decide
  have hparse : Body.parse s.text "[]".toList = .ok s.body :=
    parse_eq_ok_iff.2 ⟨s, rfl, hs, by decide, rfl⟩
  have hread := h s "[]".toList s.body s.tokens [] '\u00a0' hs hparse (by simp) (by decide)
    (by decide)
  rw [s.join_tokens, parse_append_of_stages _ hs (by decide) (by decide) (by decide)] at hread
  cases hread

end Stencil
