import Stencil.Text.Basic
import Stencil.Body.Basic
import Stencil.Proofs.Parser.Language

/-! # Spellings of a body

A spelling is a body as it is written, blanks included, with no regard to places. Which spellings
are grammatical and which of these mean a body is said here without a parser: names hold none of
five characters, arguments none of three, and a name is neither blank nor partly reserved.
-/

namespace Stencil

structure Row where
  first : Text
  others : List Text
deriving DecidableEq, Repr

namespace Row

def toList (row : Row) : List Text := row.first :: row.others

def text (separator : Char) (row : Row) : Text :=
  row.first ++ row.others.flatMap fun t => separator :: t

def place (separator : Char) (start : Nat) (row : Row) : Chain separator where
  first := ⟨start, row.first⟩
  others := placeEach id Piece.mk separator (start + row.first.width) row.others

end Row

/-- A name, arguments in parentheses, and what stands behind them. -/
structure Stage where
  name : Text
  arguments : Row
  trailing : Text
deriving DecidableEq, Repr

namespace Stage

def text (stage : Stage) : Text :=
  stage.name ++ '(' :: stage.arguments.text ',' ++ ')' :: stage.trailing

def place (start : Nat) (stage : Stage) : WrittenCall where
  name := ⟨start, stage.name⟩
  arguments := stage.arguments.place ',' (start + stage.name.width + 1)
  trailing := stage.trailing

end Stage

structure Spelling where
  path : Row
  stages : List Stage
deriving DecidableEq, Repr

namespace Spelling

def text (s : Spelling) : Text :=
  s.path.text '.' ++ s.stages.flatMap fun stage => ':' :: stage.text

def place (start : Nat) (s : Spelling) : WrittenBody where
  path := s.path.place '.' start
  calls := placeEach Stage.text Stage.place ':' (start + (s.path.text '.').width) s.stages

end Spelling

/-- What a path segment or a function name is written with. -/
def IsName (t : Text) : Prop := t ≠ [] ∧ ∀ c ∈ t, c ∉ ['.', ':', '(', ')', ',']

def IsArgument (t : Text) : Prop := ∀ c ∈ t, c ∉ [',', '(', ')']

def IsLayout (t : Text) : Prop := ∀ c ∈ t, c ∈ [' ', '\t', '\r', '\n']

structure Stage.IsGrammatical (stage : Stage) : Prop where
  name : IsName stage.name
  arguments : ∀ t ∈ stage.arguments.toList, IsArgument t
  trailing : IsLayout stage.trailing

structure Spelling.IsGrammatical (s : Spelling) : Prop where
  path : ∀ t ∈ s.path.toList, IsName t
  stages : ∀ stage ∈ s.stages, stage.IsGrammatical

def Text.AllBlank (t : Text) : Prop := ∀ c ∈ t, isBlank c = true

/-- A name that can be taken for what it is once it is trimmed. -/
def IsFit (reserved t : Text) : Prop := (∀ c ∈ t, c ∉ reserved) ∧ ¬ t.AllBlank

/-- A single blank argument stands for no argument. -/
def Row.IsVoid (row : Row) : Prop := row.others = [] ∧ row.first.AllBlank

structure Stage.IsMeaningful (reserved : Text) (stage : Stage) : Prop where
  name : IsFit reserved stage.name
  arguments : stage.arguments.IsVoid ∨ ∀ t ∈ stage.arguments.toList, ¬ t.AllBlank

structure Spelling.IsMeaningful (reserved : Text) (s : Spelling) : Prop where
  path : ∀ t ∈ s.path.toList, IsFit reserved t
  stages : ∀ stage ∈ s.stages, stage.IsMeaningful reserved

/-- The characters of the text are tried, and not all characters that there are. -/
instance (t : Text) (P : Char → Prop) [DecidablePred P] : Decidable (∀ c ∈ t, P c) :=
  List.decidableBAll P t

instance (t : Text) : Decidable (IsName t) := inferInstanceAs (Decidable (_ ∧ _))
instance (t : Text) : Decidable (IsArgument t) := inferInstanceAs (Decidable (∀ _ ∈ _, _))
instance (t : Text) : Decidable (IsLayout t) := inferInstanceAs (Decidable (∀ _ ∈ _, _))
instance (t : Text) : Decidable t.AllBlank := inferInstanceAs (Decidable (∀ _ ∈ _, _))
instance (reserved t : Text) : Decidable (IsFit reserved t) := inferInstanceAs (Decidable (_ ∧ _))
instance (row : Row) : Decidable row.IsVoid := inferInstanceAs (Decidable (_ ∧ _))

instance (stage : Stage) : Decidable stage.IsGrammatical :=
  decidable_of_iff (_ ∧ _ ∧ _) ⟨fun ⟨h, h', h''⟩ => ⟨h, h', h''⟩, fun ⟨h, h', h''⟩ => ⟨h, h', h''⟩⟩

instance (s : Spelling) : Decidable s.IsGrammatical :=
  decidable_of_iff (_ ∧ _) ⟨fun ⟨h, h'⟩ => ⟨h, h'⟩, fun ⟨h, h'⟩ => ⟨h, h'⟩⟩

instance (reserved : Text) (stage : Stage) : Decidable (stage.IsMeaningful reserved) :=
  decidable_of_iff (_ ∧ _) ⟨fun ⟨h, h'⟩ => ⟨h, h'⟩, fun ⟨h, h'⟩ => ⟨h, h'⟩⟩

instance (reserved : Text) (s : Spelling) : Decidable (s.IsMeaningful reserved) :=
  decidable_of_iff (_ ∧ _) ⟨fun ⟨h, h'⟩ => ⟨h, h'⟩, fun ⟨h, h'⟩ => ⟨h, h'⟩⟩

def Stage.call (stage : Stage) : Call where
  name := stage.name.trim
  arguments := if stage.arguments.IsVoid then [] else stage.arguments.toList.map Text.trim

def Spelling.body (s : Spelling) : Body where
  path := s.path.toList.map Text.trim
  pipeline := s.stages.map Stage.call

def Chain.row {separator : Char} (chain : Chain separator) : Row :=
  ⟨chain.first.text, chain.others.map Piece.text⟩

def WrittenCall.stage (call : WrittenCall) : Stage :=
  ⟨call.name.text, call.arguments.row, call.trailing⟩

def WrittenBody.spelling (body : WrittenBody) : Spelling :=
  ⟨body.path.row, body.calls.map WrittenCall.stage⟩

theorem map_placeEach {α β : Type} {text : α → Text} {place : Nat → α → β} {back : β → α}
    (hback : ∀ start a, back (place start a) = a) (separator : Char) (start : Nat) (as : List α) :
    (placeEach text place separator start as).map back = as := by
  induction as generalizing start with
  | nil => rfl
  | cons a as ih => rw [placeEach, List.map_cons, hback, ih]

@[simp] theorem row_place (separator : Char) (start : Nat) (row : Row) :
    (row.place separator start).row = row := by
  rw [Chain.row, Row.place, map_placeEach fun _ _ => rfl]

@[simp] theorem stage_place (start : Nat) (stage : Stage) : (stage.place start).stage = stage := by
  rw [WrittenCall.stage, Stage.place, row_place]

@[simp] theorem spelling_place (start : Nat) (s : Spelling) : (s.place start).spelling = s := by
  rw [WrittenBody.spelling, Spelling.place, row_place, map_placeEach stage_place]

theorem flatMap_placeEach {α β : Type} {text : α → Text} {place : Nat → α → β} {written : β → Text}
    (h : ∀ start a, written (place start a) = text a) (separator : Char) (start : Nat)
    (as : List α) :
    ((placeEach text place separator start as).flatMap fun b => separator :: written b) =
      as.flatMap fun a => separator :: text a := by
  induction as generalizing start with
  | nil => rfl
  | cons a as ih => rw [placeEach, List.flatMap_cons, h, ih, List.flatMap_cons]

theorem Row.text_place (separator : Char) (start : Nat) (row : Row) :
    (row.place separator start).text = row.text separator := by
  have hothers := @flatMap_placeEach _ _ id Piece.mk Piece.text (fun _ _ => rfl) separator
    (start + row.first.width) row.others
  exact congrArg (row.first ++ ·) hothers

theorem Stage.text_place (start : Nat) (stage : Stage) : (stage.place start).text = stage.text := by
  rw [WrittenCall.text, text, place, Row.text_place]

theorem Spelling.text_place (start : Nat) (s : Spelling) : (s.place start).text = s.text := by
  rw [WrittenBody.text, text, place, Row.text_place, flatMap_placeEach Stage.text_place]

end Stencil
