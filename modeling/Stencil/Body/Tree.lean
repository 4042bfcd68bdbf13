import Stencil.Body.Grammar

/-! # Parse trees

What a rule read, as a tree of named parts with their places. Layout and structural characters are
parts of no leaf, so the two rules for them leave no tree at all.
-/

namespace Stencil

/-- A rule, the bytes in front of what it read, what it read, and its parts. -/
inductive Tree where
  | node (rule : Rule) (start : Nat) (text : Text) (inner : List Tree)
deriving Repr

namespace Tree

def rule : Tree → Rule
  | node rule _ _ _ => rule

def start : Tree → Nat
  | node _ start _ _ => start

def text : Tree → Text
  | node _ _ text _ => text

def inner : Tree → List Tree
  | node _ _ _ inner => inner

def stop (tree : Tree) : Nat := tree.start + tree.text.width

end Tree

def Piece.tree (rule : Rule) (piece : Piece) : Tree := .node rule piece.start piece.text []

def Chain.tree {separator : Char} (rule part : Rule) (chain : Chain separator) : Tree :=
  .node rule chain.first.start chain.text (chain.toList.map (Piece.tree part))

def WrittenCall.tree (call : WrittenCall) : Tree :=
  .node .call call.name.start call.text
    [call.name.tree .identifier, call.arguments.tree .argumentList .argument]

/-- The tree of a whole body ends in a leaf without characters for the end of the text. -/
def WrittenBody.tree (body : WrittenBody) : Tree :=
  .node .body body.path.first.start body.text
    (body.path.tree .path .identifier :: body.calls.map WrittenCall.tree ++
      [.node .endOfInput (body.path.first.start + body.text.width) [] []])

/-- The trees that a rule leaves behind. -/
def Rule.forest : Rule → Parser Rule (List Tree)
  | .layout => (fun _ => []) <$> Parser.takeWhile Char.isWhitespace
  | .structural => (fun _ => []) <$> Parser.satisfy Grammar.isStructural
  | .identifier => (fun piece => [piece.tree .identifier]) <$> Grammar.identifier
  | .argument => (fun piece => [piece.tree .argument]) <$> Grammar.argument
  | .path => (fun chain => [chain.tree .path .identifier]) <$> Grammar.path
  | .argumentList => (fun chain => [chain.tree .argumentList .argument]) <$> Grammar.argumentList
  | .call => (fun call => [call.tree]) <$> Grammar.call
  | .body => (fun body => [body.tree]) <$> Grammar.body
  | .endOfInput => do
    let start ← Parser.position
    let _ ← Grammar.endOfInput
    return [.node .endOfInput start [] []]

end Stencil
