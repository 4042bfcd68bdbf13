import Stencil.Body.Tree
import Stencil.Proofs.Body.Faulty

/-! # Bodies taken from their trees

A body can also be taken from the tree that its text leaves behind. A walk over a tree goes by the
rules of the nodes and has an answer for every shape, also for a tree without a root and for a call
without parts. No text leaves such a tree, so the walk reads every text as it is read without trees,
and what it says of those shapes is never said.
-/

namespace Stencil

/-- What a reading by trees and offsets has an answer for although it does not happen. -/
inductive Guard where
  | root
  /-- A call has no parts. -/
  | functionName
  /-- A body starts or stops inside a character. -/
  | boundary
deriving DecidableEq, Repr

namespace Guard

def wording : Guard → String
  | root => "empty marker"
  | functionName => "missing function name"
  | boundary => "marker body does not lie on character boundaries"

def reason (guard : Guard) : Reason := .custom guard.wording.toList

end Guard

namespace Tree

def piece (tree : Tree) : Piece := ⟨tree.start, tree.text⟩

def arguments (tree : Tree) : Except BodyFault (List Text) :=
  if tree.inner.length = 1 ∧ ∀ part ∈ tree.inner, part.text.trim = [] then .ok []
  else tree.inner.mapM fun part => part.piece.trimmed .argument

/-- The call that a node is: its first part is the name, and its second one holds the arguments. -/
def call (reserved : Text) (tree : Tree) : Except BodyFault Call :=
  match tree.inner with
  | [] => .error { offset := 0, reason := Guard.functionName.reason }
  | name :: rest => do
    let name ← name.piece.nameOf .functionName reserved
    let arguments ← match rest with
      | [] => .ok []
      | list :: _ => list.arguments
    return { name, arguments }

def extend (reserved : Text) (body : Body) (part : Tree) : Except BodyFault Body :=
  match part.rule with
  | .path => do
    let segments ← part.inner.mapM fun part => part.piece.nameOf .segment reserved
    return { body with path := body.path ++ segments }
  | .call => do
    let call ← part.call reserved
    return { body with pipeline := body.pipeline ++ [call] }
  | _ => .ok body

def walk (reserved : Text) : List Tree → Except BodyFault Body
  | [] => .error { offset := 0, reason := Guard.root.reason }
  | root :: _ => root.inner.foldlM (extend reserved) ⟨[], []⟩

end Tree

/-- The body that a text spells, taken from the trees that the text leaves behind. -/
def Body.parseTree (text reserved : Text) : Except BodyFault Body := do
  let forest ← Grammar.read (Rule.forest .body) text
  Tree.walk reserved forest

section Tree

variable {reserved : Text} {separator : Char} {rule part : Rule}

theorem Chain.mapM_inner_tree {α : Type} (chain : Chain separator)
    (f : Piece → Except BodyFault α) :
    ((chain.tree rule part).inner.mapM fun tree => f tree.piece) = chain.toList.mapM f := by
  rw [Chain.tree, Tree.inner, List.mapM_map]
  rfl

theorem Chain.arguments_tree (chain : Chain ',') :
    (chain.tree .argumentList .argument).arguments = argumentsOf chain := by
  have hvoid : ((chain.tree .argumentList .argument).inner.length = 1 ∧
      ∀ part ∈ (chain.tree .argumentList .argument).inner, part.text.trim = []) ↔
        chain.others = [] ∧ chain.first.text.trim = [] := by
    cases hothers : chain.others with
    | nil => simp [Chain.tree, Tree.inner, Chain.toList, hothers, Piece.tree, Tree.text]
    | cons other others => simp [Chain.tree, Tree.inner, Chain.toList, hothers]
  rw [Tree.arguments, argumentsOf, Chain.mapM_inner_tree]
  simp only [hvoid]

theorem WrittenCall.call_tree (call : WrittenCall) :
    call.tree.call reserved = call.decode reserved := by
  rw [WrittenCall.decode, ← Chain.arguments_tree]
  rfl

theorem foldlM_extend_calls (calls : List WrittenCall) (body : Body) :
    (calls.map WrittenCall.tree).foldlM (Tree.extend reserved) body = do
      let pipeline ← calls.mapM (WrittenCall.decode reserved)
      return { body with pipeline := body.pipeline ++ pipeline } := by
  induction calls generalizing body with
  | nil => simp [pure, Except.pure, bind, Except.bind]
  | cons call calls ih =>
    have hfirst : Tree.extend reserved body call.tree = do
        let decoded ← call.decode reserved
        return { body with pipeline := body.pipeline ++ [decoded] } := by
      rw [← WrittenCall.call_tree]
      rfl
    rw [List.map_cons, List.foldlM_cons, hfirst, List.mapM_cons]
    cases call.decode reserved with
    | error fault => rfl
    | ok decoded =>
      have hlater := ih { body with pipeline := body.pipeline ++ [decoded] }
      simp only [List.append_assoc, List.singleton_append] at hlater
      simp only [bind, Except.bind, pure, Except.pure] at hlater ⊢
      rw [hlater]
      cases calls.mapM (WrittenCall.decode reserved) <;> rfl

/-- The tree of a written body says what the written body says. -/
theorem WrittenBody.walk_tree (body : WrittenBody) :
    Tree.walk reserved [body.tree] = body.decode reserved := by
  have hpath : Tree.extend reserved ⟨[], []⟩ (body.path.tree .path .identifier) = do
      let path ← body.path.toList.mapM (Piece.nameOf .segment reserved)
      return ⟨path, []⟩ := by
    rw [← @Chain.mapM_inner_tree _ .path .identifier]
    rfl
  have hend : ∀ read start, Tree.extend reserved read (.node .endOfInput start [] []) = .ok read :=
    fun _ _ => rfl
  rw [Tree.walk, tree, Tree.inner, List.cons_append, List.foldlM_cons, hpath, decode]
  cases body.path.toList.mapM (Piece.nameOf .segment reserved) with
  | error fault => rfl
  | ok path =>
    have hcalls := @foldlM_extend_calls reserved body.calls ⟨path, []⟩
    simp only [bind, Except.bind, pure, Except.pure] at hcalls ⊢
    rw [List.foldlM_append]
    simp only [bind, Except.bind]
    rw [hcalls]
    cases body.calls.mapM (WrittenCall.decode reserved) <;> rfl

end Tree

theorem Grammar.read_map {α β : Type} (f : α → β) (p : Parser Rule α) (text : Text) :
    Grammar.read (f <$> p) text = (Grammar.read p text).map f := by
  rw [Grammar.read, Grammar.read, Parser.map_apply]
  rcases p { ahead := text } with ⟨result, frontier⟩
  cases result <;> rfl

/-- By way of its tree a text is read as it is without. -/
theorem Body.parseTree_eq (text reserved : Text) :
    Body.parseTree text reserved = Body.parse text reserved := by
  rw [Body.parseTree, Rule.forest, Grammar.read_map, Body.parse]
  cases Grammar.read Grammar.body text with
  | error fault => rfl
  | ok written => exact written.walk_tree

section Reason

variable {text reserved : Text} {fault : BodyFault}

theorem reason_ne_custom_of_parse (h : Body.parse text reserved = .error fault) (wording : Text) :
    fault.reason ≠ .custom wording := by
  cases hread : Grammar.read Grammar.body text with
  | error found =>
    rcases read_body_eq_error_iff.1 hread with ⟨place, rule, -, rfl⟩
    rw [Body.parse, hread] at h
    cases h
    simp
  | ok written =>
    rcases (parse_eq_error_iff_find? hread).1 h with ⟨part, -, hreport⟩
    cases hreport <;> simp

theorem message_ne_wording {reason : Reason} (h : ∀ wording, reason ≠ .custom wording)
    (guard : Guard) : reason.message ≠ guard.wording := by
  intro heq
  cases reason with
  | custom wording => exact h wording rfl
  | expected rules =>
    cases rules with
    | nil => cases guard <;> revert heq <;> decide
    | cons rule rules =>
      -- the first two characters tell the wordings apart
      have hstart := congrArg (fun message : String => message.toList.take 2) heq
      cases guard <;> simp [Reason.message, Guard.wording] at hstart
  | reserved kind piece found =>
    have hstart := congrArg (fun message : String => message.toList.head?) heq
    cases kind <;> cases guard <;> simp [Reason.message, PieceKind.name, Guard.wording] at hstart
  | blank kind => cases kind <;> cases guard <;> revert heq <;> decide
  | _ => cases guard <;> revert heq <;> decide

end Reason

end Stencil
