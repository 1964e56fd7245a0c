import Verbatim.Proofs.Tree.Provenance
import Verbatim.Proofs.Tree.Respacing

/-! Where tokens stand. The leaves of a node that lies in its source follow each other there, so the
place where a token begins is told by what the leaves in front of it take up. -/

namespace Verbatim.Node

/-- The place behind the formatting that the node owns, if it remembers where it was read. -/
def begins (node : Node) : Option Nat :=
  node.origin.map fun origin => origin.span.start + node.leadingOrEmpty.text.utf8ByteSize

def leafNodes (node : Node) : List Node := node.preorder.filter fun part => part.children.isEmpty

def spot (node : Node) : Option Nat × Kind × Option String := (node.begins, node.kind, node.text)

/-- The same of leaves that follow each other from `base` on. -/
def spots (base : Nat) : List Leaf → List (Option Nat × Kind × Option String)
  | [] => []
  | leaf :: rest =>
    (some (base + (String.join (leaf.fronts.map Trivia.text)).utf8ByteSize),
      leaf.kind, leaf.text) ::
      spots (base + leaf.written.utf8ByteSize) rest

theorem spots_append (base : Nat) (leaves others : List Leaf) :
    spots base (leaves ++ others) = spots base leaves ++
      spots (base + (String.join (leaves.map Leaf.written)).utf8ByteSize) others := by
  induction leaves generalizing base with
  | nil => rfl
  | cons leaf leaves induction =>
      rw [List.cons_append, spots, spots, induction, List.map_cons, String.join_cons,
        String.utf8ByteSize_append, Nat.add_assoc, List.cons_append]

theorem mem_spots {base place : Nat} {kind : Kind} {text : Option String} {leaves : List Leaf} :
    (some place, kind, text) ∈ spots base leaves ↔ ∃ before fronts behind,
      leaves = before ++ ⟨fronts, kind, text⟩ :: behind ∧
      place = base + (String.join (before.map Leaf.written)).utf8ByteSize +
        (String.join (fronts.map Trivia.text)).utf8ByteSize := by
  constructor
  · intro member
    induction leaves generalizing base with
    | nil => cases member
    | cons leaf leaves induction =>
        rcases List.mem_cons.1 member with here | there
        · simp only [Prod.mk.injEq, Option.some.injEq] at here
          rcases here with ⟨rfl, rfl, rfl⟩
          exact ⟨[], leaf.fronts, leaves, rfl, rfl⟩
        · rcases induction there with ⟨before, fronts, behind, rfl, rfl⟩
          refine ⟨leaf :: before, fronts, behind, rfl, ?_⟩
          rw [List.map_cons, String.join_cons, String.utf8ByteSize_append]
          omega
  · rintro ⟨before, fronts, behind, rfl, rfl⟩
    rw [spots_append]
    exact List.mem_append_right _ List.mem_cons_self

theorem leafNodes_mk (head : NodeHead) (first : Node) (rest : List Node) :
    leafNodes ⟨head, first :: rest⟩ = (first :: rest).flatMap leafNodes := by
  have all (nodes : List Node) :
      (preorderOfAll nodes).filter (fun part => part.children.isEmpty) =
        nodes.flatMap leafNodes := by
    induction nodes with
    | nil => rfl
    | cons node nodes induction =>
        rw [preorderOfAll, List.filter_append, induction, List.flatMap_cons, leafNodes]
  rw [leafNodes, preorder, List.filter_cons_of_neg (by simp), all]

/-- The tokens of a node that lies in its source stand where its leaves put them. -/
theorem Sealed.map_spot {source : String} {start stop base : Nat} {node : Node}
    (lies : node.Sealed source start stop) (regular : node.Everywhere Regular)
    (fronts : List Trivia)
    (infront : base + (String.join (fronts.map Trivia.text)).utf8ByteSize = start) :
    node.leafNodes.map spot = spots base (node.leavesBehind fronts) := by
  induction node using Node.induction generalizing start stop base fronts with
  | step node induction =>
      have below : ∀ child ∈ node.children, child.Everywhere Regular := fun _ => regular.child
      rcases node with ⟨head, children⟩
      rcases lies with
        ⟨leading, span, position, inner, behind, leadingEqual, originEqual, rfl, -, front,
        inside, -⟩
      have own : (String.join ((fronts ++ ownFront head).map Trivia.text)).utf8ByteSize =
          (String.join (fronts.map Trivia.text)).utf8ByteSize + leading.text.utf8ByteSize := by
        rw [List.map_append, String.join_append, String.utf8ByteSize_append,
          join_ownFront, leadingEqual]
        rfl
      cases children with
      | nil =>
          have begins_ : begins ⟨head, []⟩ = some (span.start + leading.text.utf8ByteSize) := by
            simp only [begins, leadingOrEmpty, originEqual, leadingEqual]
            rfl
          rw [leavesBehind, List.isEmpty_nil, if_pos rfl, spots, own, spots, leafNodes, preorder,
            preorderOfAll, List.filter_cons_of_pos rfl, List.filter_nil,
            List.map_singleton, spot, begins_, ← infront, Nat.add_assoc]
      | cons first rest =>
          have noText : head.text = none := regular.here.noText (List.cons_ne_nil first rest)
          rcases front with ⟨_, _, -, -, innerEqual⟩
          rw [noText, Option.getD_none, String.append_empty] at innerEqual
          rcases inside with ⟨middle, here, there⟩
          rw [List.forall_mem_cons] at below induction
          have firstSpots : first.leafNodes.map spot =
              spots base (first.leavesBehind (fronts ++ ownFront head)) :=
            induction.1 here below.1 _ (by rw [own]; omega)
          -- the other children have nothing in front of them but their own formatting
          have others : ∀ {place : Nat}, SealedInTurn source place behind rest →
              (rest.flatMap leafNodes).map spot = spots place (rest.flatMap leaves) := by
            have each := induction.2
            have regularEach := below.2
            clear induction below there regular
            induction rest with
            | nil => exact fun _ _ => rfl
            | cons next rest later =>
                rw [List.forall_mem_cons] at each regularEach
                rintro place ⟨middle, here, there⟩
                rcases here.standsAt with ⟨_, _, -, -, middleEqual⟩
                rw [List.flatMap_cons, List.map_append, List.flatMap_cons, spots_append,
                  later each.2 regularEach.2 there, ← written_eq_join_leaves regularEach.1,
                  ← middleEqual, each.1 here regularEach.1 [] rfl]
                rfl
          rcases here.standsAt with ⟨_, _, -, -, middleEqual⟩
          rw [leafNodes_mk, List.flatMap_cons, List.map_append, leavesBehind_cons, spots_append,
            firstSpots, others there, join_leavesBehind below.1, String.utf8ByteSize_append, own,
            middleEqual, innerEqual, ← infront]
          congr 2
          omega

end Verbatim.Node
