import Stencil.Parser.Basic
import Stencil.Body.Basic
import Stencil.Fault

/-! # Reading bodies

Names are runs of characters that give a body no structure. Arguments are looser: points and colons
mean nothing inside the parentheses of a call. Each rule of the grammar reads as much as it can and
takes nothing back but a separator that no piece follows.

A written body is understood piece by piece, in the order of its text. A name that holds a reserved
character is refused, even if it is blank too, and so is a blank piece; what remains is the piece
without the blanks around it. One blank argument is no argument.
-/

namespace Stencil

namespace Grammar

/-- The characters that no name holds. -/
def isStructural (c : Char) : Bool := c ∈ ['.', ':', '(', ')', ',']

def endsArgument (c : Char) : Bool := c ∈ [',', '(', ')']

def piece (p : Parser Rule Text) : Parser Rule Piece := do
  let start ← Parser.position
  let text ← p
  return { start, text }

def chain (separator : Char) (p : Parser Rule Piece) : Parser Rule (Chain separator) := do
  let first ← p
  let others ← Parser.many do
    let _ ← Parser.char separator
    p
  return { first, others }

/-- A path segment or a function name: at least one character. -/
def identifier : Parser Rule Piece :=
  (piece (Parser.takeWhile1 fun c => !isStructural c)).label .identifier

def argument : Parser Rule Piece :=
  (piece (Parser.takeWhile fun c => !endsArgument c)).label .argument

def path : Parser Rule (Chain '.') := (chain '.' identifier).label .path

def argumentList : Parser Rule (Chain ',') := (chain ',' argument).label .argumentList

/-- A name, arguments in parentheses, and the spaces, tabs and line ends behind them. -/
def call : Parser Rule WrittenCall := Parser.label .call do
  let name ← identifier
  let _ ← Parser.char '('
  let arguments ← argumentList
  let _ ← Parser.char ')'
  let trailing ← Parser.takeWhile Char.isWhitespace
  return { name, arguments, trailing }

def endOfInput : Parser Rule Unit := Parser.endOfInput.label .endOfInput

def body : Parser Rule WrittenBody := Parser.label .body do
  let path ← path
  let calls ← Parser.many do
    let _ ← Parser.char ':'
    call
  let _ ← endOfInput
  return { path, calls }

/-- What a rule reads from the start of a text, or which rules were missing furthest into it. -/
def read {α : Type} (rule : Parser Rule α) (text : Text) : Except BodyFault α :=
  match rule { ahead := text } with
  | ⟨some (found, _), _⟩ => .ok found
  | ⟨none, frontier⟩ => .error { offset := frontier.offset, reason := .expected frontier.labels }

theorem piece_apply (p : Parser Rule Text) (input : Input) :
    piece p input =
      ⟨(p input).result.map fun (text, rest) => ({ start := input.offset, text }, rest),
        (p input).frontier⟩ := by
  rw [piece, Parser.bind_apply_of_some _ rfl, bind_pure_comp, Parser.map_apply]
  simp [Parser.position]

/-- A name is the longest run of characters without structure; an empty run is reported. -/
theorem identifier_apply (input : Input) :
    identifier input =
      if input.ahead.takeWhile (fun c => !isStructural c) = [] then
        { result := none, frontier := { offset := input.offset, labels := [.identifier] } }
      else piece (Parser.takeWhile fun c => !isStructural c) input := by
  have hp := piece_apply (Parser.takeWhile1 fun c => !isStructural c) input
  split
  · next h =>
    rw [Parser.takeWhile1_apply, if_pos h] at hp
    rw [identifier, Parser.label_of_none _ (by rw [hp]; rfl), hp, Frontier.blame_empty]
  · next h =>
    rw [Parser.takeWhile1_apply, if_neg h, ← piece_apply] at hp
    rw [identifier, Parser.label_of_some _ (by rw [hp, piece_apply]; rfl), hp]

theorem argument_apply (input : Input) :
    argument input = piece (Parser.takeWhile fun c => !endsArgument c) input := by
  rw [argument, Parser.label_of_some _ (by rw [piece_apply]; rfl)]

end Grammar

def Piece.trimmed (kind : PieceKind) (piece : Piece) : Except BodyFault Text :=
  if piece.text.trim = [] then .error { offset := piece.start, reason := .blank kind }
  else .ok piece.text.trim

/-- The piece without the blanks around it, if no character of it is reserved. -/
def Piece.nameOf (kind : PieceKind) (reserved : Text) (piece : Piece) : Except BodyFault Text :=
  match piece.text.dropWhile (· ∉ reserved) with
  | [] => piece.trimmed kind
  | found :: _ =>
    .error {
      offset := piece.start + Text.width (piece.text.takeWhile (· ∉ reserved))
      reason := .reserved kind piece.text.trim found }

def argumentsOf (arguments : Chain ',') : Except BodyFault (List Text) :=
  if arguments.others = [] ∧ arguments.first.text.trim = [] then .ok []
  else arguments.toList.mapM (Piece.trimmed .argument)

def WrittenCall.decode (reserved : Text) (call : WrittenCall) : Except BodyFault Call := do
  let name ← call.name.nameOf .functionName reserved
  let arguments ← argumentsOf call.arguments
  return { name, arguments }

def WrittenBody.decode (reserved : Text) (body : WrittenBody) : Except BodyFault Body := do
  let path ← body.path.toList.mapM (Piece.nameOf .segment reserved)
  let pipeline ← body.calls.mapM (WrittenCall.decode reserved)
  return { path, pipeline }

/-- The body that a text spells. No piece is looked into unless the whole text is well formed. -/
def Body.parse (text reserved : Text) : Except BodyFault Body := do
  let written ← Grammar.read Grammar.body text
  written.decode reserved

end Stencil
