import Stencil.Body.Grammar
import Stencil.Proofs.Body.Grammar

/-! # The tokens of a spelling

A spelling is a row of tokens: its pieces, the separators between them, and the layout behind each
stage. An argument that stands for none is no piece. The places of the pieces follow from what
stands in front of them, and a whole body is read with each piece at its place.
-/

namespace Stencil

/-- A piece, or something between two pieces. -/
inductive Token where
  | piece (kind : PieceKind) (text : Text)
  | separator (c : Char)
  /-- A blank argument that stands for none. -/
  | void (text : Text)
  | layout (text : Text)
deriving DecidableEq, Repr

namespace Token

def text : Token → Text
  | piece _ t => t
  | separator c => [c]
  | void t => t
  | layout t => t

def join (tokens : List Token) : Text := tokens.flatMap text

@[simp] theorem join_nil : join [] = [] := rfl

@[simp] theorem join_cons (token : Token) (tokens : List Token) :
    join (token :: tokens) = token.text ++ join tokens := rfl

@[simp] theorem join_append (tokens more : List Token) :
    join (tokens ++ more) = join tokens ++ join more :=
  List.flatMap_append

end Token

def Row.tokens (kind : PieceKind) (separator : Char) (row : Row) : List Token :=
  .piece kind row.first :: row.others.flatMap fun t => [.separator separator, .piece kind t]

def Row.argumentTokens (row : Row) : List Token :=
  if row.IsVoid then [.void row.first] else row.tokens .argument ','

def Stage.tokens (stage : Stage) : List Token :=
  .piece .functionName stage.name :: .separator '(' :: stage.arguments.argumentTokens ++
    [.separator ')', .layout stage.trailing]

def Spelling.tokens (s : Spelling) : List Token :=
  s.path.tokens .segment '.' ++ s.stages.flatMap fun stage => .separator ':' :: stage.tokens

theorem join_flatMap {α : Type} {as : List α} {tokens : α → List Token} (text : α → Text)
    (h : ∀ a ∈ as, Token.join (tokens a) = text a) :
    Token.join (as.flatMap tokens) = as.flatMap text := by
  induction as with
  | nil => rfl
  | cons a as ih =>
    rw [List.flatMap_cons, List.flatMap_cons, Token.join_append, h a (by simp),
      ih fun x hx => h x (by simp [hx])]

theorem Row.join_tokens (kind : PieceKind) (separator : Char) (row : Row) :
    Token.join (row.tokens kind separator) = row.text separator := by
  rw [tokens, Token.join_cons, join_flatMap fun t => separator :: t]
  · rfl
  · intro t _
    simp [Token.text]

theorem Row.join_argumentTokens (row : Row) : Token.join row.argumentTokens = row.text ',' := by
  rw [argumentTokens]
  split
  · next hvoid => simp [Row.text, hvoid.1, Token.text]
  · exact row.join_tokens .argument ','

theorem Stage.join_tokens (stage : Stage) : Token.join stage.tokens = stage.text := by
  simp [tokens, Row.join_argumentTokens, text, Token.text]

theorem Spelling.join_tokens (s : Spelling) : Token.join s.tokens = s.text := by
  rw [tokens, Token.join_append, Row.join_tokens, join_flatMap fun stage => ':' :: stage.text]
  · rfl
  · intro stage _
    rw [Token.join_cons, Stage.join_tokens]
    rfl

structure Part where
  kind : PieceKind
  piece : Piece
deriving DecidableEq, Repr

/-- The name of the call and its arguments, unless the only one is blank. -/
def WrittenCall.parts (call : WrittenCall) : List Part :=
  ⟨.functionName, call.name⟩ ::
    if call.arguments.row.IsVoid then [] else call.arguments.toList.map (Part.mk .argument)

def WrittenBody.parts (body : WrittenBody) : List Part :=
  body.path.toList.map (Part.mk .segment) ++ body.calls.flatMap WrittenCall.parts

def Token.part? (start : Nat) : Token → Option Part
  | piece kind t => some ⟨kind, ⟨start, t⟩⟩
  | _ => none

/-- The pieces among tokens the first of which stands at `start`. -/
def partsFrom : Nat → List Token → List Part
  | _, [] => []
  | start, token :: tokens =>
    (token.part? start).toList ++ partsFrom (start + token.text.width) tokens

theorem partsFrom_append (start : Nat) (tokens more : List Token) :
    partsFrom start (tokens ++ more) =
      partsFrom start tokens ++ partsFrom (start + (Token.join tokens).width) more := by
  induction tokens generalizing start with
  | nil => rfl
  | cons token tokens ih =>
    rw [List.cons_append, partsFrom, partsFrom, ih, List.append_assoc, Token.join_cons,
      Text.width_append, Nat.add_assoc]

theorem flatMap_placeEach_eq_partsFrom {α β : Type} {text : α → Text} {place : Nat → α → β}
    {parts : β → List Part} {tokens : α → List Token}
    (hparts : ∀ start a, parts (place start a) = partsFrom start (tokens a))
    (htext : ∀ a, Token.join (tokens a) = text a) (separator : Char) (start : Nat) (as : List α) :
    (placeEach text place separator start as).flatMap parts =
      partsFrom start (as.flatMap fun a => .separator separator :: tokens a) := by
  induction as generalizing start with
  | nil => rfl
  | cons a as ih =>
    have hwidth : (Token.separator separator).text.width = separator.utf8Size := by
      simp [Token.text]
    rw [placeEach, List.flatMap_cons, hparts, ih, List.flatMap_cons, List.cons_append, partsFrom,
      partsFrom_append, htext, hwidth]
    rfl

theorem Row.map_toList_place (kind : PieceKind) (separator : Char) (start : Nat) (row : Row) :
    (row.place separator start).toList.map (Part.mk kind) =
      partsFrom start (row.tokens kind separator) := by
  have hothers : (placeEach id Piece.mk separator (start + row.first.width) row.others).flatMap
      (fun piece => [Part.mk kind piece]) = partsFrom (start + row.first.width)
        (row.others.flatMap fun t => [.separator separator, .piece kind t]) := by
    apply flatMap_placeEach_eq_partsFrom
    · exact fun _ _ => rfl
    · exact fun t => List.append_nil t
  rw [← List.map_eq_flatMap] at hothers
  rw [place, Chain.toList, List.map_cons, hothers]
  rfl

theorem Stage.parts_place (start : Nat) (stage : Stage) :
    (stage.place start).parts = partsFrom start stage.tokens := by
  have hrow : (stage.place start).arguments.row = stage.arguments := row_place ..
  have harguments : (if stage.arguments.IsVoid then []
      else (stage.place start).arguments.toList.map (Part.mk .argument)) =
      partsFrom (start + stage.name.width + 1) stage.arguments.argumentTokens := by
    rw [Row.argumentTokens]
    split
    · rfl
    · exact stage.arguments.map_toList_place .argument ',' _
  have hclose : ∀ n, partsFrom n [.separator ')', .layout stage.trailing] = [] := fun _ => rfl
  rw [WrittenCall.parts, hrow, harguments, tokens, List.cons_append, List.cons_append, partsFrom,
    partsFrom, partsFrom_append, hclose, List.append_nil]
  rfl

/-- The parts of a written body are the pieces among the tokens it is spelt with. -/
theorem Spelling.parts_place (start : Nat) (s : Spelling) :
    (s.place start).parts = partsFrom start s.tokens := by
  have hcalls : (s.place start).calls.flatMap WrittenCall.parts = _ :=
    flatMap_placeEach_eq_partsFrom Stage.parts_place Stage.join_tokens ':' _ s.stages
  rw [WrittenBody.parts, hcalls, tokens, partsFrom_append, Row.join_tokens]
  congr 1
  exact s.path.map_toList_place .segment '.' start

theorem exists_of_partsFrom_eq_append {start : Nat} {tokens : List Token} {before after : List Part}
    {part : Part} (h : partsFrom start tokens = before ++ part :: after) :
    ∃ front back, tokens = front ++ .piece part.kind part.piece.text :: back ∧
      before = partsFrom start front ∧ part.piece.start = start + (Token.join front).width := by
  induction tokens generalizing start before with
  | nil => simp [partsFrom] at h
  | cons token tokens ih =>
    rw [partsFrom] at h
    cases hpart : token.part? start with
    | none =>
      rw [hpart] at h
      obtain ⟨front, back, rfl, rfl, hplace⟩ := ih h
      exact ⟨token :: front, back, rfl, by simp [partsFrom, hpart], by simp [hplace, Nat.add_assoc]⟩
    | some found =>
      rw [hpart] at h
      cases before with
      | nil =>
        cases token with
        | piece kind t =>
          cases hpart
          cases h
          exact ⟨[], tokens, rfl, rfl, rfl⟩
        | _ => cases hpart
      | cons first before =>
        obtain ⟨rfl, hlater⟩ := List.cons.inj h
        obtain ⟨front, back, rfl, rfl, hplace⟩ := ih hlater
        refine ⟨token :: front, back, rfl, ?_, by simp [hplace, Nat.add_assoc]⟩
        simp [partsFrom, hpart]

namespace Spelling

variable {s : Spelling} {part : Part}

end Spelling

def PieceKind.Admits : PieceKind → Text → Prop
  | .argument, t => IsArgument t
  | _, t => IsName t

def Token.IsGrammatical : Token → Prop
  | piece kind t => kind.Admits t
  | separator _ => True
  | void t => IsArgument t
  | layout t => IsLayout t

@[simp] theorem Token.isGrammatical_piece_iff {kind : PieceKind} {t : Text} :
    (piece kind t).IsGrammatical ↔ kind.Admits t := Iff.rfl

@[simp] theorem Token.isGrammatical_separator (c : Char) : (separator c).IsGrammatical := trivial

@[simp] theorem Token.isGrammatical_layout_iff {t : Text} :
    (layout t).IsGrammatical ↔ IsLayout t := Iff.rfl

theorem Row.isGrammatical_tokens_iff {kind : PieceKind} {separator : Char} {row : Row} :
    (∀ token ∈ row.tokens kind separator, token.IsGrammatical) ↔
      ∀ t ∈ row.toList, kind.Admits t := by
  simp only [tokens, toList, List.forall_mem_cons, List.forall_mem_flatMap]
  simp

theorem Row.isGrammatical_argumentTokens_iff {row : Row} :
    (∀ token ∈ row.argumentTokens, token.IsGrammatical) ↔ ∀ t ∈ row.toList, IsArgument t := by
  rw [argumentTokens]
  split
  · next hvoid => simp [toList, hvoid.1, Token.IsGrammatical]
  · exact isGrammatical_tokens_iff

theorem Stage.isGrammatical_iff {stage : Stage} :
    stage.IsGrammatical ↔ ∀ token ∈ stage.tokens, token.IsGrammatical := by
  have htokens : (∀ token ∈ stage.tokens, token.IsGrammatical) ↔ IsName stage.name ∧
      (∀ t ∈ stage.arguments.toList, IsArgument t) ∧ IsLayout stage.trailing := by
    rw [← Row.isGrammatical_argumentTokens_iff]
    simp only [tokens, List.forall_mem_cons, List.forall_mem_append]
    simp [PieceKind.Admits, and_assoc]
  rw [htokens]
  constructor
  · exact fun h => ⟨h.name, h.arguments, h.trailing⟩
  · exact fun h => ⟨h.1, h.2.1, h.2.2⟩

/-- Whether a spelling is grammatical is a matter of each token alone. -/
theorem Spelling.isGrammatical_iff {s : Spelling} :
    s.IsGrammatical ↔ ∀ token ∈ s.tokens, token.IsGrammatical := by
  have htokens : (∀ token ∈ s.tokens, token.IsGrammatical) ↔
      (∀ t ∈ s.path.toList, IsName t) ∧ ∀ stage ∈ s.stages, stage.IsGrammatical := by
    have hpath : (∀ token ∈ s.path.tokens .segment '.', token.IsGrammatical) ↔ _ :=
      Row.isGrammatical_tokens_iff
    simp only [Stage.isGrammatical_iff, tokens, List.forall_mem_append, hpath,
      List.forall_mem_flatMap, List.forall_mem_cons]
    simp [PieceKind.Admits]
  rw [htokens]
  constructor
  · exact fun h => ⟨h.path, h.stages⟩
  · exact fun h => ⟨h.1, h.2⟩

end Stencil
