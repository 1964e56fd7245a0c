import Mathlib.Data.List.Basic
import Verbatim.Proofs.Tree.Lifting

/-! The tokens of trees and their frames. A frame is what is left of a tree without its texts;
frames and tokens together are all that there is but formatting. -/

namespace Verbatim

namespace Node

/-- Kinds and texts of the tokens of a tree, in their order. -/
def tokens (node : Node) : List (Kind × String) :=
  node.preorder.filterMap fun part => part.text.map (part.kind, ·)

theorem tokens_mk (head : NodeHead) (children : List Node) :
    tokens ⟨head, children⟩ = (head.text.map (head.kind, ·)).toList ++ children.flatMap tokens := by
  rw [tokens, preorder, preorderOfAll_eq_flatMap, List.filterMap_cons, List.filterMap_flatMap]
  cases head.text <;> rfl

theorem tokens_bare (node : Node) : node.bare.tokens = node.tokens := by
  induction node using Node.induction with
  | step node induction =>
      rcases node with ⟨head, children⟩
      rw [bare_mk, tokens_mk, tokens_mk, List.flatMap_map]
      congr 1
      exact List.flatMap_congr induction

theorem filterMap_leavesBehind {node : Node} (apart : node.Everywhere TextOrChildren)
    (fronts : List Trivia) :
    (node.leavesBehind fronts).filterMap (fun leaf => leaf.text.map (leaf.kind, ·)) =
      node.tokens := by
  induction node using Node.induction generalizing fronts with
  | step node induction =>
      rcases node with ⟨head, children⟩
      rw [tokens_mk]
      cases children with
      | nil => cases text : head.text <;> simp [leavesBehind, text]
      | cons first rest =>
          have noText : head.text = none := by
            rw [← Option.not_isSome_iff_eq_none]
            exact fun text => List.cons_ne_nil _ _ (apart.here text)
          have behind : rest.flatMap (fun child =>
                child.leaves.filterMap fun leaf => leaf.text.map (leaf.kind, ·)) =
              rest.flatMap tokens :=
            List.flatMap_congr fun child member => induction child (List.mem_cons_of_mem _ member)
              (apart.child (List.mem_cons_of_mem _ member)) []
          rw [leavesBehind_cons, List.filterMap_append, List.filterMap_flatMap, behind,
            induction first List.mem_cons_self (apart.child List.mem_cons_self), noText,
            List.flatMap_cons, Option.map_none, Option.toList_none, List.nil_append]

theorem filterMap_text_leavesBehind {node : Node} (apart : node.Everywhere TextOrChildren)
    (fronts : List Trivia) :
    (node.leavesBehind fronts).filterMap (·.text) = node.tokens.map Prod.snd := by
  rw [← filterMap_leavesBehind apart fronts, List.map_filterMap]
  exact List.filterMap_congr fun leaf _ => by cases leaf.text <;> rfl

theorem filterMap_text_leavesOfAll {nodes : List Node}
    (apart : ∀ node ∈ nodes, node.Everywhere TextOrChildren) (fronts : List Trivia) :
    (leavesOfAll fronts nodes).filterMap (·.text) = (nodes.flatMap tokens).map Prod.snd := by
  induction nodes generalizing fronts with
  | nil => rfl
  | cons node nodes induction =>
      rw [List.forall_mem_cons] at apart
      rw [leavesOfAll, List.filterMap_append, filterMap_text_leavesBehind apart.1,
        induction apart.2, List.flatMap_cons, List.map_append]

/-! ## Frames -/

/-- A tree with empty texts: what kinds of nodes there are and which of them have text. -/
def frame : Node → Node := mapHeads fun head =>
  { bareHead head with text := head.text.map fun _ => "" }

theorem frame_mk (head : NodeHead) (children : List Node) : frame ⟨head, children⟩ =
    ⟨{ bareHead head with text := head.text.map fun _ => "" }, children.map frame⟩ :=
  mapHeads_mk head children

theorem frame_bare (node : Node) : node.bare.frame = node.frame := by
  rw [frame, bare, mapHeads_mapHeads]
  rfl

theorem tokens_frame (node : Node) : node.frame.tokens = node.tokens.map fun token =>
    (token.1, "") := by
  induction node using Node.induction with
  | step node induction =>
      rcases node with ⟨head, children⟩
      rw [frame_mk, tokens_mk, tokens_mk, List.flatMap_map, List.map_append, List.map_flatMap]
      congr 1
      · cases head.text <;> rfl
      · exact List.flatMap_congr induction

/-- Frames and tokens are all that there is but formatting. -/
theorem bare_eq_of_frame {node other : Node} (same : node.frame = other.frame)
    (spelled : node.tokens.map Prod.snd = other.tokens.map Prod.snd) : node.bare = other.bare := by
  induction node using Node.induction generalizing other with
  | step node induction =>
      rcases node with ⟨head, children⟩
      rcases other with ⟨otherHead, others⟩
      rw [frame_mk, frame_mk, Node.mk.injEq, NodeHead.mk.injEq] at same
      rcases same with ⟨⟨-, kind, -, text, trailing, markers, -⟩, sameChildren⟩
      have both : head.text = otherHead.text ∧
          (children.flatMap tokens).map Prod.snd = (others.flatMap tokens).map Prod.snd := by
        rw [tokens_mk, tokens_mk, List.map_append, List.map_append] at spelled
        cases isText : head.text <;> cases isOther : otherHead.text <;> simp_all
      have below : children.map bare = others.map bare := by
        clear text spelled
        rcases both with ⟨-, texts⟩
        induction children generalizing others with
        | nil =>
            rw [List.map_nil, eq_comm, List.map_eq_nil_iff] at sameChildren
            rw [sameChildren]
        | cons child children each =>
            cases others with
            | nil => cases sameChildren
            | cons other others =>
                rw [List.map_cons, List.map_cons, List.cons.injEq] at sameChildren
                -- as many tokens of both trees belong to the first child
                have lengths : (child.tokens.map Prod.snd).length =
                    (other.tokens.map Prod.snd).length := by
                  have frames := congrArg (List.length ∘ Node.tokens) sameChildren.1
                  simpa [tokens_frame] using frames
                rw [List.flatMap_cons, List.flatMap_cons, List.map_append, List.map_append] at texts
                rcases List.append_inj texts lengths with ⟨first, rest⟩
                rw [List.map_cons, List.map_cons,
                  induction child List.mem_cons_self sameChildren.1 first,
                  each (fun child member => induction child (List.mem_cons_of_mem _ member)) others
                    sameChildren.2 rest]
      rw [bare_mk, bare_mk, below]
      rcases head with ⟨_, _, _, _, _, _, _⟩
      rcases otherHead with ⟨_, _, _, _, _, _, _⟩
      cases kind
      cases trailing
      cases markers
      cases both.1
      rfl

theorem length_tokens_of_frames {nodes others : List Node}
    (same : nodes.map frame = others.map frame) :
    (nodes.flatMap tokens).length = (others.flatMap tokens).length := by
  have frames := congrArg (fun nodes => (nodes.flatMap tokens).length) same
  simpa [List.flatMap_map, tokens_frame, List.length_flatMap] using frames

theorem kind_of_frame {node other : Node} (same : node.frame = other.frame) :
    node.kind = other.kind := by
  rcases node with ⟨head, children⟩
  rcases other with ⟨otherHead, others⟩
  rw [frame_mk, frame_mk, Node.mk.injEq, NodeHead.mk.injEq] at same
  exact same.1.2.1

theorem children_of_frame {node other : Node} (same : node.frame = other.frame) :
    node.children.map frame = other.children.map frame := by
  rcases node with ⟨head, children⟩
  rcases other with ⟨otherHead, others⟩
  rw [frame_mk, frame_mk, Node.mk.injEq] at same
  exact same.2

theorem map_kind_of_frames {nodes others : List Node} (same : nodes.map frame = others.map frame) :
    nodes.map (·.kind) = others.map (·.kind) := by
  have kinds (nodes : List Node) : nodes.map (·.kind) = (nodes.map frame).map (·.kind) := by
    rw [List.map_map]
    exact List.map_congr_left fun node _ =>
      by rcases node with ⟨head, children⟩; rw [Function.comp, frame_mk]; rfl
  rw [kinds, same, ← kinds]

end Node

end Verbatim
