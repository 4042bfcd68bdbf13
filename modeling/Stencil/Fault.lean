import Stencil.Text.Basic

/-! # Rules and faults

The rules that the grammar of bodies is made of, under the names that a report gives them, and what
can be wrong with delimiters, with a text and with a list of markers to be replaced. A fault keeps
its place and its cause; the wording is given once, by `Reason.message` and `Fault.message`.
-/

namespace Stencil

inductive Rule where
  /-- Spaces, tabs and line ends behind a call. -/
  | layout
  /-- One of the characters that give a body its structure. -/
  | structural
  | identifier
  | argument
  | path
  | argumentList
  | call
  | body
  | endOfInput
deriving DecidableEq, Repr

namespace Rule

def name : Rule → String
  | layout => "ws"
  | structural => "structural"
  | identifier => "identifier"
  | argument => "argument"
  | path => "path"
  | argumentList => "argument_list"
  | call => "call"
  | body => "body"
  | endOfInput => "EOI"

def readable : List Rule :=
  [layout, structural, identifier, argument, path, argumentList, call, body]

def ofName? (name : String) : Option Rule := readable.find? (·.name = name)

example : ∀ rule ∈ readable, ofName? rule.name = some rule := by decide

end Rule

inductive PieceKind where
  | segment
  | functionName
  | argument
deriving DecidableEq, Repr

def PieceKind.name : PieceKind → String
  | segment => "path segment"
  | functionName => "function name"
  | argument => "argument"

/-- Why a text, a pair of delimiters or a list of markers is refused. -/
inductive Reason where
  | emptyDelimiter
  | equalDelimiters
  /-- None of these rules holds where one has to. -/
  | expected (rules : List Rule)
  /-- A piece that names something holds a character of a delimiter. -/
  | reserved (kind : PieceKind) (piece : Text) (found : Char)
  | blank (kind : PieceKind)
  /-- A marker starts before the end of the one replaced last. -/
  | outOfOrder
  /-- A marker's text is not what stands at its place. -/
  | mismatch
  /-- A caller's own wording. -/
  | custom (wording : Text)
deriving DecidableEq, Repr

/-- The names in a row, with "or" before the last one. -/
def alternatives : List String → String
  | [] => ""
  | [one] => one
  | [first, second] => first ++ " or " ++ second
  | first :: second :: third :: more =>
    let names := first :: second :: third :: more
    ", ".intercalate names.dropLast ++ ", or " ++ names.getLastD third

def Reason.message : Reason → String
  | emptyDelimiter => "delimiters must not be empty"
  | equalDelimiters => "opening and closing delimiters must differ"
  | expected [] => "unknown parsing error"
  | expected rules => "expected " ++ alternatives (rules.map Rule.name)
  | reserved kind piece found =>
    kind.name ++ " `" ++ String.ofList piece ++ "` contains delimiter character `" ++
      String.singleton found ++ "`"
  | blank kind => "empty " ++ kind.name
  | outOfOrder => "marker overlaps or precedes an earlier marker"
  | mismatch => "marker does not match the text at its offset"
  | custom wording => String.ofList wording

example : (Reason.expected [.call, .identifier, .endOfInput]).message =
    "expected call, identifier, or EOI" := by decide +kernel

/-- A failure of the library. Places are bytes from the start of the text. -/
inductive Fault where
  /-- An opening delimiter at `position` has no closing one behind it. -/
  | unterminated (position : Nat) (closing : Text)
  /-- The body of the span `rawText` at `position` cannot be read; `offset` is to blame. -/
  | malformed (rawText : Text) (position offset : Nat) (reason : Reason)
  | invalidDelimiters (reason : Reason)
  /-- The marker at `position` cannot be replaced. -/
  | unspliceable (position : Nat) (reason : Reason)
deriving DecidableEq, Repr

namespace Fault

def message : Fault → String
  | unterminated position closing =>
    "unterminated marker at offset " ++ toString position ++ ": missing closing `" ++
      String.ofList closing ++ "`"
  | malformed rawText _ offset reason =>
    "malformed marker `" ++ String.ofList rawText ++ "` at offset " ++ toString offset ++ ": " ++
      reason.message
  | invalidDelimiters reason => "invalid delimiters: " ++ reason.message
  | unspliceable position reason =>
    "cannot splice marker at offset " ++ toString position ++ ": " ++ reason.message

def place? : Fault → Option Nat
  | unterminated position _ => some position
  | malformed _ _ offset _ => some offset
  | invalidDelimiters _ => none
  | unspliceable position _ => some position

end Fault

/-- A body that cannot be read: why, and how many bytes behind its start. -/
structure BodyFault where
  offset : Nat
  reason : Reason
deriving DecidableEq, Repr

end Stencil
