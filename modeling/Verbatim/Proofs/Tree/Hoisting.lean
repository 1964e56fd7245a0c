import Verbatim.Proofs.Tree.Sealing
import Verbatim.Tree.Hoist

/-! Hoisting moves formatting up a leading edge and does nothing else: shape, leaves and text stay,
and formatting that was decided stays decided. -/

namespace Verbatim.Node

theorem hoistAll_eq_map (nodes : List Node) : hoistAll nodes = nodes.map hoist := by
  induction nodes with
  | nil => rfl
  | cons first rest induction => rw [hoistAll, induction, List.map_cons]

theorem takeLeading_cons (head : NodeHead) (first : Node) (rest : List Node) :
    (first.hasLeading = true ∧ (head.leading.getD .empty).isEmpty = true ∧
      takeLeading head (first :: rest) =
        ⟨{ head with leading := some first.leadingOrEmpty, origin := none },
          first.withLeading .empty :: rest⟩) ∨
    takeLeading head (first :: rest) = ⟨{ head with origin := none }, first :: rest⟩ := by
  rw [takeLeading]
  split
  next moves =>
    simp only [hasLeading, leadingOrEmpty, Bool.and_eq_true, Bool.not_eq_true',
      Bool.not_eq_false'] at moves
    exact .inl ⟨by simpa [hasLeading, leadingOrEmpty] using moves.1, moves.2, rfl⟩
  next => exact .inr rfl

theorem hoist_cons_of_not_hasLeading {head : NodeHead} {first : Node} {rest : List Node}
    (none : first.hoist.hasLeading = false) : hoist ⟨head, first :: rest⟩ =
      ⟨{ head with origin := Option.none }, first.hoist :: rest.map hoist⟩ := by
  rw [hoist, hoistAll_eq_map, List.map_cons]
  rcases takeLeading_cons head first.hoist (rest.map hoist) with ⟨moves, -, -⟩ | stays
  · rw [none] at moves
    cases moves
  · exact stays

/-! ## Shape -/

theorem bare_withLeading (node : Node) (leading : Trivia) :
    (node.withLeading leading).bare = node.bare := by
  cases node
  rfl

section

variable {change : NodeHead → NodeHead} (overlooks : ∀ (head : NodeHead) (leading : Option Trivia)
  (origin : Option Origin), change { head with leading, origin } = change head)

include overlooks

theorem mapHeads_withLeading (node : Node) (leading : Trivia) :
    (node.withLeading leading).mapHeads change = node.mapHeads change := by
  rcases node with ⟨head, children⟩
  rw [withLeading, mapHeads_mk, mapHeads_mk, overlooks]

theorem mapHeads_takeLeading (head : NodeHead) (children : List Node) :
    (takeLeading head children).mapHeads change = mapHeads change ⟨head, children⟩ := by
  cases children with
  | nil => rfl
  | cons first rest =>
      rcases takeLeading_cons head first rest with ⟨-, -, equal⟩ | equal
      · rw [equal, mapHeads_mk, mapHeads_mk, List.map_cons, List.map_cons,
          mapHeads_withLeading overlooks, overlooks]
      · rw [equal, mapHeads_mk, mapHeads_mk]
        exact congrArg (Node.mk · _) (overlooks head head.leading none)

theorem mapHeads_hoist (node : Node) : node.hoist.mapHeads change = node.mapHeads change := by
  induction node using Node.induction with
  | step node induction =>
      rcases node with ⟨head, children⟩
      rw [hoist, mapHeads_takeLeading overlooks, mapHeads_mk, mapHeads_mk, hoistAll_eq_map,
        List.map_map]
      exact congrArg (Node.mk _) (List.map_congr_left induction)

end

@[simp] theorem bare_hoist (node : Node) : node.hoist.bare = node.bare :=
  mapHeads_hoist (fun _ _ _ => rfl) node

theorem unlaid_hoist (node : Node) : node.hoist.unlaid = node.unlaid :=
  mapHeads_hoist (fun _ _ _ => rfl) node

/-! ## Identities -/

theorem takeLeading_renumber (numbering : NodeId → NodeId) (head : NodeHead)
    (children : List Node) :
    takeLeading (renumberHead numbering head) (children.map (renumber numbering)) =
      (takeLeading head children).renumber numbering := by
  cases children with
  | nil => rfl
  | cons first rest =>
      rcases first with ⟨firstHead, firstChildren⟩
      rw [List.map_cons, renumber_mk, renumberHead, renumberHead, takeLeading, takeLeading]
      by_cases moves : (hasLeading ⟨firstHead, firstChildren⟩ &&
        !hasLeading ⟨head, ⟨firstHead, firstChildren⟩ :: rest⟩) = true
      · rw [if_pos moves]
        refine (if_pos moves).trans ?_
        simp only [withChildren, withLeading, renumber_mk, renumberHead, leadingOrEmpty,
          List.map_cons]
      · rw [if_neg moves]
        refine (if_neg moves).trans ?_
        simp only [withChildren, renumber_mk, renumberHead, List.map_cons]

theorem hoist_renumber (numbering : NodeId → NodeId) (node : Node) :
    (node.renumber numbering).hoist = node.hoist.renumber numbering := by
  induction node using Node.induction with
  | step node induction =>
      rcases node with ⟨head, children⟩
      rw [renumber_mk, hoist, hoist, ← takeLeading_renumber, hoistAll_eq_map, hoistAll_eq_map,
        List.map_map, List.map_map]
      exact congrArg _ (List.map_congr_left induction)

theorem hoist_withoutIds (node : Node) : node.withoutIds.hoist = node.hoist.withoutIds :=
  hoist_renumber (fun _ => .unnumbered) node

/-! ## Leaves -/

theorem leavesBehind_takeLeading (fronts : List Trivia) (head : NodeHead) (children : List Node) :
    (takeLeading head children).leavesBehind fronts = leavesBehind fronts ⟨head, children⟩ := by
  cases children with
  | nil => rfl
  | cons first rest =>
      rcases takeLeading_cons head first rest with ⟨moves, bareNode, equal⟩ | equal
      · rcases first with ⟨firstHead, firstChildren⟩
        have own : ownFront head = [] := by simp [ownFront, bareNode]
        have moved : ownFront firstHead = [firstHead.leading.getD .empty] := by
          simpa [ownFront, hasLeading, leadingOrEmpty] using moves
        have taken : ownFront { head with
            leading := some (firstHead.leading.getD .empty), origin := none } =
            [firstHead.leading.getD .empty] := moved
        have left : ownFront { firstHead with leading := some .empty, origin := none } = [] := rfl
        rw [equal, leavesBehind, leavesBehind, leavesOfAll_cons, leavesOfAll_cons]
        simp only [List.isEmpty_cons, Bool.false_eq_true, if_false, withLeading, leavesBehind,
          leadingOrEmpty, taken, left, own, moved, List.append_nil]
      · rw [equal]
        rfl

mutual

theorem leavesBehind_hoist (fronts : List Trivia) :
    ∀ node : Node, node.hoist.leavesBehind fronts = node.leavesBehind fronts
  | ⟨head, children⟩ => by
      have empty : (hoistAll children).isEmpty = children.isEmpty := by cases children <;> rfl
      rw [hoist, leavesBehind_takeLeading, leavesBehind, leavesBehind, empty,
        leavesOfAll_hoistAll _ children]

theorem leavesOfAll_hoistAll (fronts : List Trivia) :
    ∀ nodes : List Node, leavesOfAll fronts (hoistAll nodes) = leavesOfAll fronts nodes
  | [] => rfl
  | node :: rest => by
      rw [hoistAll, leavesOfAll, leavesOfAll, leavesBehind_hoist fronts node,
        leavesOfAll_hoistAll [] rest]

end

@[simp] theorem leaves_hoist (node : Node) : node.hoist.leaves = node.leaves :=
  leavesBehind_hoist [] node

/-! ## Formatting and text -/

/-- Hoisting keeps what holds of nodes as soon as they have formatting of their own, and what does
not depend on children. -/
theorem everywhere_hoist {property : Node → Prop}
    (withLeading : ∀ (node : Node) (leading : Trivia), property (node.withLeading leading))
    (withChildren : ∀ (node : Node) (children : List Node), property node →
      property (node.withChildren children))
    {node : Node} (holds : node.Everywhere property) : node.hoist.Everywhere property := by
  induction node using Node.induction with
  | step node induction =>
      rcases node with ⟨head, children⟩
      rw [hoist, hoistAll_eq_map]
      cases children with
      | nil => exact holds
      | cons given others =>
          have inside : ∀ child ∈ (given :: others).map hoist, child.Everywhere property := by
            intro child member
            rcases List.mem_map.1 member with ⟨before, beforeMember, rfl⟩
            exact induction before beforeMember (holds.child beforeMember)
          rw [List.map_cons] at inside ⊢
          rcases takeLeading_cons head given.hoist (others.map hoist) with ⟨-, -, equal⟩ | equal
          · rw [equal, everywhere_iff]
            constructor
            · exact withChildren _ _ (withLeading ⟨head, []⟩ given.hoist.leadingOrEmpty)
            · intro child member
              rcases List.mem_cons.1 member with rfl | member
              · rw [everywhere_iff]
                exact ⟨withLeading _ _, fun below => (inside _ List.mem_cons_self).child⟩
              · exact inside child (List.mem_cons_of_mem _ member)
          · rw [equal, everywhere_iff]
            exact ⟨withChildren _ _ holds.here, inside⟩

theorem everywhere_formatted_hoist {node : Node} (formatted : node.Everywhere Formatted) :
    node.hoist.Everywhere Formatted :=
  everywhere_hoist (fun _ _ => rfl) (fun _ _ formatted => formatted) formatted

/-- A node that has text has no children. -/
def TextOrChildren (node : Node) : Prop := node.text.isSome → node.children = []

theorem Regular.textOrChildren {node : Node} (regular : node.Regular) : node.TextOrChildren := by
  intro text
  rcases regular.leafOrBranch with ⟨-, -, none⟩ | ⟨-, missing, -⟩
  · exact none
  · rw [missing] at text
    cases text

theorem written_takeLeading {head : NodeHead} {children : List Node}
    (apart : TextOrChildren ⟨head, children⟩) :
    (takeLeading head children).written = written ⟨head, children⟩ := by
  cases children with
  | nil => rfl
  | cons first rest =>
      rcases takeLeading_cons head first rest with ⟨-, bareNode, equal⟩ | equal
      · rcases first with ⟨firstHead, firstChildren⟩
        have noText : head.text = none := by
          cases text : head.text with
          | none => rfl
          | some value =>
              have impossible := apart (Option.isSome_iff_exists.2 ⟨value, text⟩)
              cases impossible
        rw [equal]
        simp [written, writtenOfAll, withLeading, leadingOrEmpty, noText,
          Trivia.text_of_isEmpty bareNode, Trivia.text_empty,
          String.append_assoc]
      · rw [equal]
        rfl

theorem written_hoist {node : Node} (apart : node.Everywhere TextOrChildren) :
    node.hoist.written = node.written := by
  induction node using Node.induction with
  | step node induction =>
      rcases node with ⟨head, children⟩
      have apartHoisted : TextOrChildren ⟨head, hoistAll children⟩ := by
        intro text
        have none : children = [] := apart.here text
        rw [none]
        rfl
      have inside : writtenOfAll (hoistAll children) = writtenOfAll children := by
        have each : ∀ child ∈ children, child.hoist.written = child.written :=
          fun child member => induction child member (apart.child member)
        clear induction apart apartHoisted
        induction children with
        | nil => rfl
        | cons first rest inductionRest =>
            rw [hoistAll, writtenOfAll, writtenOfAll, each first List.mem_cons_self,
              inductionRest fun child member => each child (List.mem_cons_of_mem _ member)]
      rw [hoist, written_takeLeading apartHoisted, written, written, inside]

end Verbatim.Node
