import Verbatim.Edits.ChangeText
import Verbatim.Edits.FindIdentifier
import Verbatim.Edits.RenameIdentifier
import Verbatim.Proofs.Traversal.Deciding
import Verbatim.Proofs.Tree.Views

/-! Edits of single nodes, wherever they stand: everything but the head of a node stays as it
is, and whether a node is concerned is seen from its head alone. -/

namespace Verbatim

structure HeadEdit where
  concerns : NodeHead → Bool
  change : NodeHead → NodeHead

namespace HeadEdit

variable (edit : HeadEdit)

def head (head : NodeHead) : NodeHead := if edit.concerns head then edit.change head else head

def looks (_ : Option Kind) (node : Node) : Look :=
  ⟨if edit.concerns node.toNodeHead then
      some ⟨edit.change node.toNodeHead, node.children⟩
    else none, true⟩

theorem getD_changed (parent : Option Kind) (node : Node) :
    (edit.looks parent node).changed.getD node = ⟨edit.head node.toNodeHead, node.children⟩ := by
  rcases node with ⟨head, children⟩
  rw [looks, HeadEdit.head]
  cases edit.concerns head <;> rfl

theorem height_le {parent : Option Kind} {node new : Node}
    (changed : (edit.looks parent node).changed = some new) : new.height ≤ node.height := by
  have same := edit.getD_changed parent node
  rw [changed, Option.getD_some] at same
  refine Nat.le_of_eq ?_
  rw [same, Node.height_eq node, Node.height]

theorem content_become {depth : Nat} {node : Node} (parent : Option Kind)
    (fit : node.height ≤ depth) :
    ((Look.become edit.looks depth parent node).getD node).content =
      node.mapHeads (Node.headContent ∘ edit.head) := by
  induction depth generalizing node parent with
  | zero => exact absurd node.height_pos (Nat.not_lt.2 fit)
  | succ depth induction =>
      have children : ∀ child ∈ node.children,
          ((Look.become edit.looks depth (some (edit.head node.toNodeHead).kind) child).getD
            child).content = child.mapHeads (Node.headContent ∘ edit.head) :=
        fun child member => induction _ (Nat.le_of_lt_succ
          (Nat.lt_of_lt_of_le (Node.height_lt_of_mem member) fit))
      have head := @Look.head_become edit.looks depth parent node _ rfl
      have below := @Look.children_become edit.looks depth parent node _ rfl rfl
      rw [getD_changed] at head below
      rw [Node.content_eq, below, List.map_map]
      rcases node with ⟨first, nodes⟩
      rw [Node.mapHeads_mk]
      rw [Node.mk.injEq]
      exact ⟨(congrArg Node.headContent head :), List.map_congr_left children⟩

/-- What an edit sees of a head is in its content, and after an edit there is nothing more to do. -/
structure Settles : Prop where
  content : ∀ head, Node.headContent (edit.head (Node.headContent head)) =
    Node.headContent (edit.head head)
  again : ∀ head, Node.headContent (edit.head (edit.head head)) = Node.headContent (edit.head head)

variable {edit}

theorem Settles.mapHeads_content (settles : edit.Settles) (node : Node) :
    node.content.mapHeads (Node.headContent ∘ edit.head) =
      node.mapHeads (Node.headContent ∘ edit.head) := by
  rw [Node.content_eq_mapHeads, Node.mapHeads_mapHeads]
  exact congrArg (fun change => node.mapHeads change) (funext settles.content)

theorem Settles.content_twice (settles : edit.Settles) {tree other : Node}
    (edited : other.content = tree.mapHeads (Node.headContent ∘ edit.head)) :
    other.mapHeads (Node.headContent ∘ edit.head) = other.content := by
  rw [← settles.mapHeads_content other, edited, Node.mapHeads_mapHeads]
  refine congrArg (fun change => tree.mapHeads change) (funext fun head => ?_)
  exact (settles.content (edit.head head)).trans (settles.again head)

end HeadEdit

/-! ## The edits -/

theorem Look.visit_ite (concerns : Bool) (new : Node) :
    (Look.mk (if concerns then some new else none) true).visit =
      if concerns then .replace new else .keep := by
  cases concerns <;> rfl

theorem HeadEdit.decides (edit : HeadEdit) {name : String} {visit : Node → Visit}
    (edits : ∀ node, visit node =
      if edit.concerns node.toNodeHead then .replace ⟨edit.change node.toNodeHead, node.children⟩
      else .keep) :
    (Visitor.onVisit name fun node => return visit node).Decides edit.looks where
  visit node above session _ := by
    rw [looks, Look.visit_ite, ← edits]
    rfl
  leave _ _ _ := rfl
  height_le _ _ _ := edit.height_le
  child _ _ _ _ _ := trivial

/-- The text of nodes of a kind is changed where it is to be changed. -/
def HeadEdit.ofText (kind : Kind) (concerns : Option String → Bool) (text : String) : HeadEdit where
  concerns head := head.kind = kind && concerns head.text
  change head := { head with text := some text, origin := none }

theorem HeadEdit.ofText_settles (kind : Kind) (concerns : Option String → Bool) (text : String) :
    (HeadEdit.ofText kind concerns text).Settles where
  content head := by
    have same : (HeadEdit.ofText kind concerns text).concerns (Node.headContent head) =
        (HeadEdit.ofText kind concerns text).concerns head := rfl
    rw [HeadEdit.head, HeadEdit.head, same]
    split <;> rfl
  again head := by
    rw [HeadEdit.head.eq_def _ head]
    split
    case isTrue concerned =>
      rw [HeadEdit.head]
      split <;> rfl
    case isFalse spared => rw [HeadEdit.head, if_neg spared]

namespace RenameIdentifier

def headEdit (edit : RenameIdentifier) : HeadEdit :=
  .ofText .identifier (fun text => text = some edit.old) edit.new

theorem decides (edit : RenameIdentifier) : edit.visitor.Decides edit.headEdit.looks :=
  edit.headEdit.decides fun _ => rfl

end RenameIdentifier

namespace ChangeText

def headEdit (edit : ChangeText) : HeadEdit :=
  .ofText .plainText (fun text => text ≠ some edit.text) edit.text

theorem decides (edit : ChangeText) : edit.visitor.Decides edit.headEdit.looks :=
  edit.headEdit.decides fun _ => rfl

end ChangeText

namespace FindIdentifier

def headEdit (search : FindIdentifier) : HeadEdit where
  concerns head := head.kind = .identifier && head.text = some search.spelling &&
    search.marker ∉ head.markers
  change head := { head with markers := Marker.addTo head.markers search.marker, origin := none }

theorem decides (search : FindIdentifier) : search.visitor.Decides search.headEdit.looks :=
  search.headEdit.decides fun _ => rfl

theorem headEdit_settles (search : FindIdentifier) : search.headEdit.Settles where
  content head := by
    have same : search.headEdit.concerns (Node.headContent head) = search.headEdit.concerns head :=
      rfl
    rw [HeadEdit.head, HeadEdit.head, same]
    split <;> rfl
  again head := by
    have marked : search.marker ∈ Marker.addTo head.markers search.marker :=
      (Marker.mem_addTo ..).2 (.inr rfl)
    rw [HeadEdit.head.eq_def _ head]
    split
    case isTrue concerns => simp [HeadEdit.head, headEdit, marked]
    case isFalse concerns => rw [HeadEdit.head, if_neg concerns]

end FindIdentifier

end Verbatim
