import Stencil.Proofs.Body.Tokens

/-! # Spellings with one token left out

A frame is a spelling in which one token that is no separator is left open. Every such token of a
spelling has its frame, so one token can be exchanged for another with all the others as they are.
A frame can also be cut short: what stands in front of the token is kept, and behind it nothing
follows but what a spelling cannot do without.
-/

namespace Stencil

section Lists

variable {α β : Type} {as bs front back : List α} {a : α}

theorem cons_eq_append_cons {first : α} (h : first :: as = front ++ a :: back) :
    (front = [] ∧ first = a ∧ as = back) ∨
      ∃ rest, front = first :: rest ∧ as = rest ++ a :: back := by
  cases front with
  | nil => exact .inl ⟨rfl, List.cons.inj h⟩
  | cons x front =>
    obtain ⟨rfl, has⟩ := List.cons.inj h
    exact .inr ⟨front, rfl, has⟩

theorem append_eq_append_cons (h : as ++ bs = front ++ a :: back) :
    (∃ rest, as = front ++ a :: rest ∧ back = rest ++ bs) ∨
      ∃ rest, front = as ++ rest ∧ bs = rest ++ a :: back := by
  rcases List.append_eq_append_iff.1 h with ⟨rest, hfront, hbs⟩ | ⟨rest, has, hback⟩
  · exact .inr ⟨rest, hfront, hbs⟩
  · cases rest with
    | nil => exact .inr ⟨[], by simpa using has.symm, hback.symm⟩
    | cons x rest =>
      rw [List.cons_append, List.cons.injEq] at hback
      obtain ⟨rfl, rfl⟩ := hback
      exact .inl ⟨rest, has, rfl⟩

theorem exists_of_flatMap_eq_append_cons {xs : List β} {f : β → List α}
    (h : xs.flatMap f = front ++ a :: back) :
    ∃ before x after inFront behind, xs = before ++ x :: after ∧
      f x = inFront ++ a :: behind ∧ front = before.flatMap f ++ inFront ∧
      back = behind ++ after.flatMap f := by
  induction xs generalizing front with
  | nil => simp at h
  | cons x xs ih =>
    rw [List.flatMap_cons] at h
    rcases append_eq_append_cons h with ⟨behind, hx, rfl⟩ | ⟨rest, rfl, hxs⟩
    · exact ⟨[], x, xs, front, behind, rfl, hx, rfl, rfl⟩
    · obtain ⟨before, y, after, inFront, behind, rfl, hy, rfl, rfl⟩ := ih hxs
      exact ⟨x :: before, y, after, inFront, behind, rfl, hy, by simp, rfl⟩

theorem exists_of_separator_cons {tokens front back : List Token} {token : Token} {c : Char}
    (h : .separator c :: tokens = front ++ token :: back) (htoken : ∀ c, token ≠ .separator c) :
    ∃ rest, front = .separator c :: rest ∧ tokens = rest ++ token :: back := by
  rcases cons_eq_append_cons h with ⟨-, hseparator, -⟩ | hlater
  · exact absurd hseparator.symm (htoken c)
  · exact hlater

end Lists

namespace Row

variable {kind : PieceKind} {separator : Char}

def around : List Text → Text → List Text → Row
  | [], t, after => ⟨t, after⟩
  | first :: before, t, after => ⟨first, (around before t after).toList⟩

def leading (kind : PieceKind) (separator : Char) (before : List Text) : List Token :=
  before.flatMap fun t => [.piece kind t, .separator separator]

def following (kind : PieceKind) (separator : Char) (after : List Text) : List Token :=
  after.flatMap fun t => [.separator separator, .piece kind t]

theorem toList_around (before : List Text) (t : Text) (after : List Text) :
    (around before t after).toList = before ++ t :: after := by
  induction before with
  | nil => rfl
  | cons first before ih => rw [around, toList, ih, List.cons_append]

theorem tokens_cons (first : Text) (row : Row) :
    (⟨first, row.toList⟩ : Row).tokens kind separator =
      .piece kind first :: .separator separator :: row.tokens kind separator := rfl

theorem tokens_around (before : List Text) (t : Text) (after : List Text) :
    (around before t after).tokens kind separator =
      leading kind separator before ++ .piece kind t :: following kind separator after := by
  induction before with
  | nil => rfl
  | cons first before ih =>
    rw [around, tokens_cons, ih]
    rfl

theorem isVoid_around_iff {before after : List Text} {t : Text} :
    (around before t after).IsVoid ↔ before = [] ∧ after = [] ∧ t.AllBlank := by
  cases before with
  | nil => simp [around, IsVoid]
  | cons first before => simp [around, IsVoid, toList_around]

def argumentToken (before : List Text) (t : Text) (after : List Text) : Token :=
  if (around before t after).IsVoid then .void t else .piece .argument t

@[simp] theorem text_argumentToken (before : List Text) (t : Text) (after : List Text) :
    (argumentToken before t after).text = t := by
  rw [argumentToken]
  split <;> rfl

theorem argumentTokens_around (before : List Text) (t : Text) (after : List Text) :
    (around before t after).argumentTokens =
      leading .argument ',' before ++ argumentToken before t after ::
        following .argument ',' after := by
  rw [argumentTokens, argumentToken]
  split
  · next hvoid =>
    obtain ⟨rfl, rfl, -⟩ := isVoid_around_iff.1 hvoid
    rfl
  · exact tokens_around before t after

theorem exists_around {row : Row} {token : Token} {front back : List Token}
    (h : row.tokens kind separator = front ++ token :: back)
    (htoken : ∀ c, token ≠ .separator c) :
    ∃ before t after, row = around before t after ∧ token = .piece kind t ∧
      front = leading kind separator before ∧ back = following kind separator after := by
  obtain ⟨first, others⟩ := row
  induction others generalizing first front with
  | nil =>
    rcases cons_eq_append_cons h with ⟨rfl, rfl, rfl⟩ | ⟨rest, -, hnone⟩
    · exact ⟨[], first, [], rfl, rfl, rfl, rfl⟩
    · simp at hnone
  | cons t others ih =>
    rcases cons_eq_append_cons h with ⟨rfl, rfl, rfl⟩ | ⟨rest, rfl, hothers⟩
    · exact ⟨[], first, t :: others, rfl, rfl, rfl, rfl⟩
    · obtain ⟨rest, rfl, hrow⟩ := exists_of_separator_cons hothers htoken
      obtain ⟨before, u, after, heq, rfl, rfl, rfl⟩ := ih t hrow
      exact ⟨first :: before, u, after, by rw [around, ← heq, toList], rfl, rfl, rfl⟩

theorem exists_around_of_argumentTokens {row : Row} {token : Token} {front back : List Token}
    (h : row.argumentTokens = front ++ token :: back) (htoken : ∀ c, token ≠ .separator c) :
    ∃ before t after, row = around before t after ∧ token = argumentToken before t after ∧
      front = leading .argument ',' before ∧ back = following .argument ',' after := by
  rw [argumentTokens] at h
  split at h
  · next hvoid =>
    obtain ⟨first, others⟩ := row
    rcases cons_eq_append_cons h with ⟨rfl, rfl, rfl⟩ | ⟨rest, -, hnone⟩
    · obtain ⟨rfl, hblank⟩ := hvoid
      exact ⟨[], first, [], rfl, (if_pos ⟨rfl, hblank⟩).symm, rfl, rfl⟩
    · simp at hnone
  · next hvoid =>
    obtain ⟨before, t, after, rfl, rfl, rfl, rfl⟩ := exists_around h htoken
    exact ⟨before, t, after, rfl, (if_neg hvoid).symm, rfl, rfl⟩

end Row

/-- A stage with one token left open. -/
inductive Stage.Frame where
  | atName (arguments : Row) (trailing : Text)
  | atArgument (name : Text) (before after : List Text) (trailing : Text)
  | atTrailing (name : Text) (arguments : Row)
deriving DecidableEq, Repr

namespace Stage.Frame

def fill : Stage.Frame → Text → Stage
  | .atName arguments trailing, t => ⟨t, arguments, trailing⟩
  | .atArgument name before after trailing, t => ⟨name, .around before t after, trailing⟩
  | .atTrailing name arguments, t => ⟨name, arguments, t⟩

def front : Stage.Frame → List Token
  | .atName _ _ => []
  | .atArgument name before _ _ =>
    .piece .functionName name :: .separator '(' :: Row.leading .argument ',' before
  | .atTrailing name arguments =>
    .piece .functionName name :: .separator '(' :: arguments.argumentTokens ++ [.separator ')']

def token : Stage.Frame → Text → Token
  | .atName _ _, t => .piece .functionName t
  | .atArgument _ before after _, t => Row.argumentToken before t after
  | .atTrailing _ _, t => .layout t

def back : Stage.Frame → List Token
  | .atName arguments trailing =>
    .separator '(' :: arguments.argumentTokens ++ [.separator ')', .layout trailing]
  | .atArgument _ _ after trailing =>
    Row.following .argument ',' after ++ [.separator ')', .layout trailing]
  | .atTrailing _ _ => []

def cut : Stage.Frame → Stage.Frame
  | .atName _ _ => .atName ⟨[], []⟩ []
  | .atArgument name before _ _ => .atArgument name before [] []
  | .atTrailing name arguments => .atTrailing name arguments

variable {frame : Stage.Frame} {t : Text}

theorem tokens_fill : (frame.fill t).tokens = frame.front ++ frame.token t :: frame.back := by
  cases frame with
  | atName arguments trailing => rfl
  | atArgument name before after trailing =>
    simp [fill, front, token, back, tokens, Row.argumentTokens_around]
  | atTrailing name arguments => simp [fill, front, token, back, tokens]

@[simp] theorem front_cut : frame.cut.front = frame.front := by cases frame <;> rfl

end Stage.Frame

theorem Stage.exists_frame {stage : Stage} {token : Token} {front back : List Token}
    (h : stage.tokens = front ++ token :: back) (htoken : ∀ c, token ≠ .separator c) :
    ∃ (frame : Stage.Frame) (t : Text), stage = frame.fill t ∧ token = frame.token t ∧
      front = frame.front ∧ back = frame.back := by
  obtain ⟨name, arguments, trailing⟩ := stage
  rcases cons_eq_append_cons h with ⟨rfl, rfl, rfl⟩ | ⟨rest, rfl, hbehind⟩
  · exact ⟨.atName arguments trailing, name, rfl, rfl, rfl, rfl⟩
  obtain ⟨rest, rfl, harguments⟩ := exists_of_separator_cons hbehind htoken
  rcases append_eq_append_cons harguments with ⟨behind, hrow, rfl⟩ | ⟨close, rfl, hclose⟩
  · obtain ⟨before, t, after, rfl, rfl, rfl, rfl⟩ := Row.exists_around_of_argumentTokens hrow htoken
    exact ⟨.atArgument name before after trailing, t, rfl, rfl, rfl, rfl⟩
  · obtain ⟨last, rfl, hlayout⟩ := exists_of_separator_cons hclose htoken
    rcases cons_eq_append_cons hlayout with ⟨rfl, rfl, rfl⟩ | ⟨more, -, hnone⟩
    · exact ⟨.atTrailing name arguments, trailing, rfl, rfl, rfl, rfl⟩
    · simp at hnone

/-- A spelling with one token left open. -/
inductive Frame where
  | atSegment (before after : List Text) (stages : List Stage)
  | inStage (path : Row) (before : List Stage) (frame : Stage.Frame) (after : List Stage)
deriving DecidableEq, Repr

namespace Frame

def fill : Frame → Text → Spelling
  | .atSegment before after stages, t => ⟨.around before t after, stages⟩
  | .inStage path before frame after, t => ⟨path, before ++ frame.fill t :: after⟩

def front : Frame → List Token
  | .atSegment before _ _ => Row.leading .segment '.' before
  | .inStage path before frame _ =>
    path.tokens .segment '.' ++ (before.flatMap (fun stage => .separator ':' :: stage.tokens) ++
      .separator ':' :: frame.front)

def token : Frame → Text → Token
  | .atSegment _ _ _, t => .piece .segment t
  | .inStage _ _ frame _, t => frame.token t

def back : Frame → List Token
  | .atSegment _ after stages =>
    Row.following .segment '.' after ++ stages.flatMap fun stage => .separator ':' :: stage.tokens
  | .inStage _ _ frame after =>
    frame.back ++ after.flatMap fun stage => .separator ':' :: stage.tokens

/-- The spelling ends as soon as it can. -/
def cut : Frame → Frame
  | .atSegment before _ _ => .atSegment before [] []
  | .inStage path before frame _ => .inStage path before frame.cut []

variable {frame : Frame} {t : Text}

theorem tokens_fill : (frame.fill t).tokens = frame.front ++ frame.token t :: frame.back := by
  cases frame with
  | atSegment before after stages =>
    simp [fill, front, token, back, Spelling.tokens, Row.tokens_around]
  | inStage path before frame after =>
    simp [fill, front, token, back, Spelling.tokens, Stage.Frame.tokens_fill]

@[simp] theorem front_cut : frame.cut.front = frame.front := by
  cases frame <;> simp [cut, front]

@[simp] theorem text_token : (frame.token t).text = t := by
  cases frame with
  | atSegment before after stages => rfl
  | inStage path before frame after =>
    cases frame with
    | atArgument name before after trailing => exact Row.text_argumentToken before t after
    | _ => rfl

theorem text_fill :
    (frame.fill t).text = Token.join frame.front ++ (t ++ Token.join frame.back) := by
  rw [← Spelling.join_tokens, tokens_fill, Token.join_append, Token.join_cons, text_token]

end Frame

/-- Every token of a spelling that is no separator can be left open. -/
theorem Spelling.exists_frame {s : Spelling} {token : Token} {front back : List Token}
    (h : s.tokens = front ++ token :: back) (htoken : ∀ c, token ≠ .separator c) :
    ∃ (frame : Frame) (t : Text), s = frame.fill t ∧ token = frame.token t ∧
      front = frame.front ∧ back = frame.back := by
  obtain ⟨path, stages⟩ := s
  -- the token belongs to the path or to one of the stages
  rcases append_eq_append_cons h with ⟨behind, hpath, rfl⟩ | ⟨rest, rfl, hstages⟩
  · obtain ⟨before, t, after, rfl, rfl, rfl, rfl⟩ := Row.exists_around hpath htoken
    exact ⟨.atSegment before after stages, t, rfl, rfl, rfl, rfl⟩
  · obtain ⟨before, stage, after, inFront, behind, rfl, hstage, rfl, rfl⟩ :=
      exists_of_flatMap_eq_append_cons hstages
    obtain ⟨inStage, rfl, hfront⟩ := exists_of_separator_cons hstage htoken
    obtain ⟨frame, t, rfl, rfl, rfl, rfl⟩ := Stage.exists_frame hfront htoken
    exact ⟨.inStage path before frame after, t, rfl, rfl, rfl, rfl⟩

end Stencil
