import Stencil.Text.Basic

/-! # Bodies and markers

What stands between the delimiters of a marker, once it is understood: a path, and a pipeline of
calls for what is found there. `Call.display` and `Body.text` write both down. A marker is a body
together with the span of text that it was read from.

A written body comes before its pieces are looked into: path segments, function names and arguments
with the blanks around them, each with its place. Nothing is lost, and `WrittenBody.text` gives back
every character.
-/

namespace Stencil

structure Call where
  name : Text
  arguments : List Text
deriving DecidableEq, Repr

def Call.display (call : Call) : Text :=
  call.name ++ '(' :: [',', ' '].intercalate call.arguments ++ [')']

structure Body where
  path : List Text
  pipeline : List Call
deriving DecidableEq, Repr

namespace Body

/-- The path as one of a file system writes it. -/
def relativePath (body : Body) : Text := ['/'].intercalate body.path

def hasPipeline (body : Body) : Bool := !body.pipeline.isEmpty

/-- The body as it is written without spare blanks. -/
def text (body : Body) : Text :=
  ['.'].intercalate body.path ++ body.pipeline.flatMap fun call => ':' :: call.display

example :
    text ⟨[['a'], ['b']], [⟨['f'], []⟩, ⟨['g'], [['x'], ['y']]⟩]⟩ = "a.b:f():g(x, y)".toList := by
  decide

end Body

/-- A body, the text it was read from with its delimiters, and where that stands. -/
structure Marker extends Body where
  rawText : Text
  position : Nat
  length : Nat
deriving DecidableEq, Repr

namespace Marker

def stop (marker : Marker) : Nat := marker.position + marker.length

end Marker

/-- A part of a body, and the bytes in front of it. -/
structure Piece where
  start : Nat
  text : Text
deriving DecidableEq, Repr

def Piece.stop (piece : Piece) : Nat := piece.start + piece.text.width

/-- One or more pieces with the same character between any two neighbours. -/
structure Chain (separator : Char) where
  first : Piece
  others : List Piece
deriving DecidableEq, Repr

namespace Chain

variable {separator : Char}

def toList (chain : Chain separator) : List Piece := chain.first :: chain.others

def text (chain : Chain separator) : Text :=
  chain.first.text ++ chain.others.flatMap fun piece => separator :: piece.text

end Chain

/-- A name, arguments in parentheses, and the spaces and line ends behind them. -/
structure WrittenCall where
  name : Piece
  arguments : Chain ','
  trailing : Text
deriving DecidableEq, Repr

def WrittenCall.text (call : WrittenCall) : Text :=
  call.name.text ++ '(' :: call.arguments.text ++ ')' :: call.trailing

structure WrittenBody where
  path : Chain '.'
  calls : List WrittenCall
deriving DecidableEq, Repr

def WrittenBody.text (body : WrittenBody) : Text :=
  body.path.text ++ body.calls.flatMap fun call => ':' :: call.text

end Stencil
