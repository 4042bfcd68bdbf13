import Stencil.Proofs.Body.Containment
import Stencil.Proofs.Body.Walk

/-! # Trees that keep the whole text

The parts of a node lie in what the node has read, side by side. A node of a tree therefore stands
in the text at its own place, and what no leaf holds is known: the separators between the parts, and
the layout behind a call.
-/

namespace Stencil

namespace Tree

inductive HasNode : Tree → Tree → Prop where
  | self {tree : Tree} : HasNode tree tree
  | part {tree part node : Tree} : part ∈ tree.inner → HasNode part node → HasNode tree node

/-- Trees inside a piece, each of them behind the ones before it. -/
structure PackedIn (whole : Piece) (parts : List Tree) : Prop where
  liesIn : ∀ part ∈ parts, part.piece.LiesIn whole
  ordered : parts.Pairwise fun part next => part.stop ≤ next.start

section Packed

variable {parts later : List Tree} {tree node : Tree} {start : Nat} {s t : Text}

theorem packedIn_nil (whole : Piece) : PackedIn whole [] := ⟨by simp, .nil⟩

theorem packedIn_singleton {whole : Piece} (h : tree.piece = whole) : PackedIn whole [tree] := by
  constructor
  · intro part hpart
    rw [List.mem_singleton.1 hpart, h]
    exact ⟨[], [], by simp, rfl⟩
  · exact List.pairwise_singleton _ _

theorem PackedIn.append (h : PackedIn ⟨start, s⟩ parts)
    (h' : PackedIn ⟨start + s.width, t⟩ later) : PackedIn ⟨start, s ++ t⟩ (parts ++ later) := by
  constructor
  · intro part hpart
    rcases List.mem_append.1 hpart with hpart | hpart
    · exact (h.liesIn part hpart).trans (Piece.liesIn_append_left start s t)
    · exact (h'.liesIn part hpart).trans (Piece.liesIn_append_right start s t)
  · apply List.pairwise_append.2 ⟨h.ordered, h'.ordered, _⟩
    intro part hpart next hnext
    exact Nat.le_trans (h.liesIn part hpart).bounds.2 (h'.liesIn next hnext).bounds.1

theorem PackedIn.cons_char {c : Char} (h : PackedIn ⟨start + c.utf8Size, t⟩ parts) :
    PackedIn ⟨start, c :: t⟩ parts :=
  PackedIn.append (s := [c]) (packedIn_nil _) h

theorem packedIn_placeEach {α β : Type} {text : α → Text} {place : Nat → α → β} {tree : β → Tree}
    (htree : ∀ start a, (tree (place start a)).piece = ⟨start, text a⟩) (separator : Char)
    (start : Nat) (as : List α) :
    PackedIn ⟨start, as.flatMap fun a => separator :: text a⟩
      ((placeEach text place separator start as).map tree) := by
  induction as generalizing start with
  | nil => exact packedIn_nil _
  | cons a as ih =>
    rw [List.flatMap_cons]
    exact ((packedIn_singleton (htree _ a)).append (ih _)).cons_char

end Packed

def IsPacked (tree : Tree) : Prop := ∀ node, tree.HasNode node → PackedIn node.piece node.inner

namespace IsPacked

variable {tree part node : Tree} {text : Text}

theorem of_parts (hself : PackedIn tree.piece tree.inner)
    (hparts : ∀ part ∈ tree.inner, part.IsPacked) : tree.IsPacked := by
  intro node hnode
  cases hnode with
  | self => exact hself
  | part hpart hnode => exact hparts _ hpart node hnode

theorem of_leaf (h : tree.inner = []) : tree.IsPacked := by
  apply of_parts
  · rw [h]
    exact packedIn_nil _
  · intro part hpart
    simp [h] at hpart

theorem of_mem (h : tree.IsPacked) (hpart : part ∈ tree.inner) : part.IsPacked :=
  fun node hnode => h node (.part hpart hnode)

theorem liesIn (h : tree.IsPacked) (hnode : tree.HasNode node) :
    node.piece.LiesIn tree.piece := by
  induction hnode with
  | self => exact (packedIn_singleton rfl).liesIn _ (by simp)
  | part hpart hnode ih => exact (ih (h.of_mem hpart)).trans ((h _ .self).liesIn _ hpart)

end IsPacked

end Tree

open Stencil.Tree

section Spelling

variable {separator : Char}

theorem Row.piece_tree (rule part : Rule) (start : Nat) (row : Row) :
    ((row.place separator start).tree rule part).piece = ⟨start, row.text separator⟩ := by
  rw [← row.text_place separator start]
  rfl

theorem Stage.piece_tree (start : Nat) (stage : Stage) :
    (stage.place start).tree.piece = ⟨start, stage.text⟩ := by
  rw [← stage.text_place start]
  rfl

theorem Spelling.piece_tree (start : Nat) (s : Spelling) :
    (s.place start).tree.piece = ⟨start, s.text⟩ := by
  rw [← s.text_place start]
  rfl

theorem Row.isPacked_tree (rule part : Rule) (start : Nat) (row : Row) :
    ((row.place separator start).tree rule part).IsPacked := by
  apply IsPacked.of_parts
  · have hfirst : PackedIn ⟨start, row.first⟩ [Piece.tree part ⟨start, row.first⟩] :=
      packedIn_singleton rfl
    rw [Row.piece_tree]
    exact hfirst.append (packedIn_placeEach (fun _ _ => rfl) separator _ row.others)
  · intro leaf hleaf
    obtain ⟨piece, -, rfl⟩ := List.mem_map.1 hleaf
    exact .of_leaf rfl

theorem Stage.packedIn_inner (start : Nat) (stage : Stage) :
    PackedIn ⟨start, stage.name ++ '(' :: stage.arguments.text ','⟩
      (stage.place start).tree.inner := by
  have hname : PackedIn ⟨start, stage.name⟩ [Piece.tree .identifier ⟨start, stage.name⟩] :=
    packedIn_singleton rfl
  have hlist : PackedIn ⟨start + stage.name.width, '(' :: stage.arguments.text ','⟩ _ :=
    (packedIn_singleton (Row.piece_tree .argumentList .argument _ stage.arguments)).cons_char
  exact hname.append hlist

theorem Stage.isPacked_tree (start : Nat) (stage : Stage) :
    (stage.place start).tree.IsPacked := by
  apply IsPacked.of_parts
  · have hall := (stage.packedIn_inner start).append (packedIn_nil ⟨_, ')' :: stage.trailing⟩)
    rw [List.append_nil] at hall
    rwa [Stage.piece_tree]
  · intro child hchild
    rcases List.mem_cons.1 hchild with rfl | hchild
    · exact .of_leaf rfl
    · rw [List.mem_singleton.1 hchild]
      exact stage.arguments.isPacked_tree _ _ _

theorem exists_of_mem_placeEach {α β : Type} {text : α → Text} {place : Nat → α → β} {b : β}
    {separator : Char} {start : Nat} {as : List α}
    (h : b ∈ placeEach text place separator start as) : ∃ a ∈ as, ∃ start', b = place start' a := by
  induction as generalizing start with
  | nil => cases h
  | cons a as ih =>
    rcases List.mem_cons.1 h with rfl | hlater
    · exact ⟨a, by simp, _, rfl⟩
    · obtain ⟨a', ha', hplace⟩ := ih hlater
      exact ⟨a', List.mem_cons_of_mem a ha', hplace⟩

theorem Spelling.isPacked_tree (start : Nat) (s : Spelling) : (s.place start).tree.IsPacked := by
  apply IsPacked.of_parts
  · have hpath : PackedIn ⟨start, s.path.text '.'⟩ _ :=
      packedIn_singleton (s.path.piece_tree .path .identifier start)
    have hcalls :=
      packedIn_placeEach Stage.piece_tree ':' (start + (s.path.text '.').width) s.stages
    have hend : PackedIn ⟨start + s.text.width, []⟩
        [.node .endOfInput (start + (s.place start).text.width) [] []] := by
      rw [Spelling.text_place]
      exact packedIn_singleton rfl
    have hall := (hpath.append hcalls).append hend
    rw [List.append_nil] at hall
    rw [Spelling.piece_tree]
    exact hall
  · intro child hchild
    rcases List.mem_append.1 hchild with hchild | hchild
    · rcases List.mem_cons.1 hchild with rfl | hchild
      · exact s.path.isPacked_tree _ _ _
      · obtain ⟨call, hcall, rfl⟩ := List.mem_map.1 hchild
        obtain ⟨stage, -, start', rfl⟩ := exists_of_mem_placeEach hcall
        exact stage.isPacked_tree start'
    · rw [List.mem_singleton.1 hchild]
      exact .of_leaf rfl

end Spelling

end Stencil
