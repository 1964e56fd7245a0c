import Mathlib.Logic.Function.Basic
import Verbatim.Proofs.Tree.Contents

/-! Trees with other numbers. Numbers tell the elements of a tree apart and are good for nothing
else: a change of a tree and the same change of the tree with other numbers give the same tree,
but for the numbers. -/

namespace Verbatim

/-- Other numbers for the elements that there are, and for those that are made from now on. -/
structure Renumbering where
  id : NodeId → NodeId
  injective : Function.Injective id
  /-- The first free number, and the first free one among the other numbers. -/
  free : Nat
  other : Nat
  fresh : ∀ count, id ⟨free + count⟩ = ⟨other + count⟩

namespace Node

variable (numbering : NodeId → NodeId) (node : Node)

/-! ## What the numbers do not change -/

theorem renumber_eq : node.renumber numbering =
    ⟨{ node.toNodeHead with id := numbering node.id }, node.children.map (renumber numbering)⟩ := by
  cases node
  rw [renumber_mk]
  rfl

@[simp] theorem id_renumber : (node.renumber numbering).id = numbering node.id := by
  rw [renumber_eq]

@[simp] theorem kind_renumber : (node.renumber numbering).kind = node.kind := by
  rw [renumber_eq]

@[simp] theorem text_renumber : (node.renumber numbering).text = node.text := by
  rw [renumber_eq]

@[simp] theorem leading_renumber : (node.renumber numbering).leading = node.leading := by
  rw [renumber_eq]

@[simp] theorem markers_renumber : (node.renumber numbering).markers = node.markers := by
  rw [renumber_eq]

@[simp] theorem origin_renumber : (node.renumber numbering).origin = node.origin := by
  rw [renumber_eq]

@[simp] theorem children_renumber :
    (node.renumber numbering).children = node.children.map (renumber numbering) :=
  children_mapHeads node

@[simp] theorem is_renumber (kind : Kind) : (node.renumber numbering).is kind = node.is kind := by
  rw [is, is, kind_renumber]

@[simp] theorem isPunctuation_renumber (text : String) :
    (node.renumber numbering).isPunctuation text = node.isPunctuation text := by
  rw [isPunctuation, isPunctuation, is_renumber, text_renumber]

@[simp] theorem leadingOrEmpty_renumber :
    (node.renumber numbering).leadingOrEmpty = node.leadingOrEmpty := by
  rw [leadingOrEmpty, leadingOrEmpty, leading_renumber]

@[simp] theorem childrenOfKind_renumber (kind : Kind) :
    (node.renumber numbering).childrenOfKind kind =
      (node.childrenOfKind kind).map (renumber numbering) := by
  rw [childrenOfKind, childrenOfKind, children_renumber, List.filter_map]
  simp only [Function.comp_def, is_renumber]

@[simp] theorem tokensText_renumber : (node.renumber numbering).tokensText = node.tokensText := by
  apply tokensText_mapHeads
  exact fun _ => rfl

@[simp] theorem content_renumber : (node.renumber numbering).content = node.content := by
  rw [← content_withoutIds, withoutIds_renumber, content_withoutIds]

theorem height_renumber : (node.renumber numbering).height = node.height := by
  induction node using Node.induction with
  | step node induction =>
      rcases node with ⟨head, children⟩
      rw [renumber_mk, height, height]
      congr 1
      induction children with
      | nil => rfl
      | cons first rest others =>
          rw [List.map_cons, heightOfAll, heightOfAll, induction first List.mem_cons_self,
            others fun child member => induction child (List.mem_cons_of_mem first member)]

theorem contentEq_renumber (other : Node) :
    (node.renumber numbering).contentEq (other.renumber numbering) = node.contentEq other := by
  rw [Bool.eq_iff_iff, contentEq_iff_content, contentEq_iff_content, content_renumber,
    content_renumber]

/-! ## Changes of a tree -/

variable {numbering node}

theorem renumber_withChildren (children : List Node) :
    (node.withChildren children).renumber numbering =
      (node.renumber numbering).withChildren (children.map (renumber numbering)) := by
  rcases node with ⟨head, _⟩
  rw [renumber_mk, withChildren, renumber_mk]
  rfl

theorem renumber_withLeading (leading : Trivia) :
    (node.withLeading leading).renumber numbering =
      (node.renumber numbering).withLeading leading := by
  rcases node with ⟨head, children⟩
  rw [renumber_mk, withLeading, renumber_mk]
  rfl

theorem renumber_withText (text : String) :
    (node.withText text).renumber numbering = (node.renumber numbering).withText text := by
  rcases node with ⟨head, children⟩
  rw [renumber_mk, withText, renumber_mk]
  rfl

theorem renumber_withMarker (marker : Marker) :
    (node.withMarker marker).renumber numbering = (node.renumber numbering).withMarker marker := by
  rcases node with ⟨head, children⟩
  rw [renumber_mk, withMarker, withMarkers, renumber_mk]
  rfl

/-! ## Which numbers count -/

theorem renumber_id (node : Node) : node.renumber id = node := by
  induction node using Node.induction with
  | step node induction =>
      rcases node with ⟨head, children⟩
      have kept : children.map (renumber id) = children := (List.map_congr_left induction).trans
        (List.map_id' children)
      rw [renumber_mk, kept]
      rfl

theorem renumber_congr {other : NodeId → NodeId}
    (same : ∀ part ∈ node.preorder, numbering part.id = other part.id) :
    node.renumber numbering = node.renumber other := by
  induction node using Node.induction with
  | step node induction =>
      have here : numbering node.id = other node.id := same node node.self_mem_preorder
      rcases node with ⟨head, children⟩
      rw [renumber_mk, renumber_mk, renumberHead, renumberHead,
        show numbering head.id = other head.id from here]
      refine congrArg (Node.mk _) (List.map_congr_left fun child member => ?_)
      exact induction child member fun part inside =>
        same part (mem_preorder.2 (.inr ⟨child, member, inside⟩))

mutual

theorem number_free : ∀ (node : Node) (next : Nat), (node.number next).2 = next + node.size
  | ⟨head, children⟩, next => by
      rw [number, size, preorder, List.length_cons]
      exact (numberAll_free children (next + 1)).trans (by omega)

theorem numberAll_free : ∀ (nodes : List Node) (next : Nat),
    (numberAll next nodes).2 = next + (preorderOfAll nodes).length
  | [], _ => rfl
  | node :: rest, next => by
      rw [numberAll, preorderOfAll, List.length_append]
      exact (numberAll_free rest _).trans (by rw [number_free node, size]; omega)

end

end Node

namespace Renumbering

variable (anew : Renumbering)

abbrev node : Node → Node := Node.renumber anew.id

mutual

theorem node_number : ∀ (node : Node) (count : Nat),
    anew.node (node.number (anew.free + count)).1 = (node.number (anew.other + count)).1
  | ⟨head, children⟩, count => by
      rw [Node.number, Node.number, node, Node.renumber_mk, Node.renumberHead, anew.fresh]
      exact congrArg (Node.mk _) (map_numberAll children (count + 1))

theorem map_numberAll : ∀ (nodes : List Node) (count : Nat),
    (Node.numberAll (anew.free + count) nodes).1.map anew.node =
      (Node.numberAll (anew.other + count) nodes).1
  | [], _ => rfl
  | first :: rest, count => by
      have others := map_numberAll rest (count + first.size)
      rw [Node.numberAll, Node.numberAll]
      simp only [Node.number_free, List.map_cons, Nat.add_assoc]
      rw [node_number first count, others]

end

end Renumbering

end Verbatim
