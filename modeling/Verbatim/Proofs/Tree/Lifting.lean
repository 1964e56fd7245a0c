import Verbatim.Proofs.Tree.Contents

/-! Where formatting stands once it was hoisted. If no two nodes that start at the same place
had formatting, all of it stands at the outermost node that starts there; so such a tree is
known from its shape and from the formatting in front of its leaves. -/

namespace Verbatim.Node

/-! ## Own formatting -/

theorem ownFront_eq (head : NodeHead) : ownFront head =
    if (head.leading.getD .empty).isEmpty then [] else [head.leading.getD .empty] := by
  rw [ownFront, List.filter_cons, List.filter_nil]
  cases (head.leading.getD .empty).isEmpty <;> rfl

theorem ownFront_of_hasLeading {node : Node} (formats : node.hasLeading = true) :
    ownFront node.toNodeHead = [node.leadingOrEmpty] := by
  rw [hasLeading, leadingOrEmpty, Bool.not_eq_true'] at formats
  rw [ownFront_eq, if_neg (by rw [formats]; exact Bool.false_ne_true), leadingOrEmpty]

theorem ownFront_of_not_hasLeading {node : Node} (bareNode : node.hasLeading = false) :
    ownFront node.toNodeHead = [] := by
  rw [hasLeading, leadingOrEmpty, Bool.not_eq_false'] at bareNode
  rw [ownFront_eq, if_pos bareNode]

theorem leading_eq_of_ownFront {node other : Node} (formatted : node.Formatted)
    (otherFormatted : other.Formatted)
    (same : ownFront node.toNodeHead = ownFront other.toNodeHead) :
    node.leading = other.leading := by
  rcases Option.isSome_iff_exists.1 formatted with ⟨leading, equal⟩
  rcases Option.isSome_iff_exists.1 otherFormatted with ⟨otherLeading, otherEqual⟩
  rw [ownFront_eq, ownFront_eq, equal, otherEqual, Option.getD_some, Option.getD_some] at same
  rw [equal, otherEqual]
  split at same <;> split at same
  · rw [Trivia.eq_empty_of_isEmpty ‹leading.isEmpty = true›,
      Trivia.eq_empty_of_isEmpty ‹otherLeading.isEmpty = true›]
  · cases same
  · cases same
  · rw [(List.cons.inj same).1]

@[simp] theorem leaves_content (node : Node) : node.content.leaves = node.leaves := by
  rw [content_eq_mapHeads]
  apply leavesBehind_mapHeads
  exact fun _ => ⟨rfl, rfl, rfl⟩

theorem leavesBehind_cons (fronts : List Trivia) (head : NodeHead)
    (first : Node) (rest : List Node) :
    leavesBehind fronts ⟨head, first :: rest⟩ =
      first.leavesBehind (fronts ++ ownFront head) ++ rest.flatMap leaves := by
  rw [leavesBehind, List.isEmpty_cons, if_neg Bool.false_ne_true, leavesOfAll_cons]

theorem leaves_branch_unformatted {kind : Kind} {children : List Node} (some : children ≠ []) :
    ((Node.branch kind children).withLeading .empty).leaves = children.flatMap leaves := by
  cases children with
  | nil => exact absurd rfl some
  | cons first rest => exact leavesBehind_cons [] _ first rest

theorem leavesBehind_append (fronts : List Trivia) (head : NodeHead) {front : List Node}
    (some : front ≠ []) (back : List Node) : leavesBehind fronts ⟨head, front ++ back⟩ =
      leavesOfAll (fronts ++ ownFront head) front ++ back.flatMap leaves := by
  cases front with
  | nil => exact absurd rfl some
  | cons first rest =>
      rw [List.cons_append, leavesBehind_cons, leavesOfAll_cons, List.flatMap_append,
        List.append_assoc]

theorem exists_leavesBehind_subset {head : NodeHead} {children : List Node} {child : Node}
    (member : child ∈ children) (fronts : List Trivia) :
    ∃ inFront, child.leavesBehind inFront ⊆ leavesBehind fronts ⟨head, children⟩ := by
  rcases List.exists_cons_of_ne_nil (List.ne_nil_of_mem member) with ⟨first, rest, rfl⟩
  rw [leavesBehind_cons]
  rcases List.mem_cons.1 member with rfl | member
  · exact ⟨_, List.subset_append_left _ _⟩
  · exact ⟨[], fun leaf inside =>
      List.mem_append_right _ (List.mem_flatMap.2 ⟨child, member, inside⟩)⟩

theorem exists_leavesBehind (node : Node) (fronts : List Trivia) :
    ∃ inner kind text rest, node.leavesBehind fronts =
      ⟨fronts ++ ownFront node.toNodeHead ++ inner, kind, text⟩ :: rest := by
  induction node using Node.induction generalizing fronts with
  | step node induction =>
      rcases node with ⟨head, children⟩
      cases children with
      | nil => exact ⟨[], head.kind, head.text, [], by rw [List.append_nil]; rfl⟩
      | cons first others =>
          rcases induction first List.mem_cons_self (fronts ++ ownFront head) with
            ⟨inner, kind, text, rest, equal⟩
          refine ⟨ownFront first.toNodeHead ++ inner, kind, text, rest ++ others.flatMap leaves, ?_⟩
          rw [leavesBehind_cons, equal, List.cons_append, List.append_assoc (_ ++ _)]

/-! ## Lifted trees -/

def Lifted (node : Node) : Prop := ∀ first ∈ node.children.head?, first.hasLeading = false

theorem lifted_cons {head : NodeHead} {first : Node} {rest : List Node}
    (bareFirst : first.hasLeading = false) : Lifted ⟨head, first :: rest⟩ :=
  fun _ member => Option.some.inj member ▸ bareFirst

theorem everywhere_lifted_of_content {node other : Node} (same : node.content = other.content)
    (lifted : other.Everywhere Lifted) : node.Everywhere Lifted := by
  rw [content_eq_mapHeads, content_eq_mapHeads] at same
  refine everywhere_of_mapHeads_eq (fun node => ?_) same lifted
  rw [← content_eq_mapHeads, Lifted, Lifted, children_content, List.head?_map]
  cases node.children.head? <;> simp

theorem everywhere_formatted_of_content {node other : Node} (same : node.content = other.content)
    (formatted : other.Everywhere Formatted) : node.Everywhere Formatted := by
  rw [content_eq_mapHeads, content_eq_mapHeads] at same
  refine everywhere_of_mapHeads_eq (fun node => ?_) same formatted
  rw [Formatted, toNodeHead_mapHeads]
  rfl

/-- There is nothing between the formatting of a lifted tree and its first token; the other
leaves do not depend on it. -/
theorem leavesBehind_of_lifted {node : Node} (lifted : node.Everywhere Lifted) :
    ∃ kind text others, (∀ fronts, node.leavesBehind fronts =
        ⟨fronts ++ ownFront node.toNodeHead, kind, text⟩ :: others) ∧
      ∀ fronts leading, (node.withLeading leading).leavesBehind fronts =
        ⟨fronts ++ [leading].filter fun front => !front.isEmpty, kind, text⟩ :: others := by
  induction node using Node.induction with
  | step node induction =>
      rcases node with ⟨head, children⟩
      cases children with
      | nil => exact ⟨_, _, [], fun _ => rfl, fun _ _ => rfl⟩
      | cons first rest =>
          rcases induction first List.mem_cons_self (lifted.child List.mem_cons_self) with
            ⟨kind, text, others, leaves, -⟩
          have nothing := ownFront_of_not_hasLeading (lifted.here first rfl)
          refine ⟨kind, text, others ++ rest.flatMap Node.leaves, fun fronts => ?_,
            fun fronts leading => ?_⟩
          · rw [leavesBehind_cons, leaves, nothing, List.append_nil, List.cons_append]
          · rw [withLeading, leavesBehind_cons, leaves, nothing, List.append_nil, List.cons_append]
            rfl

/-- Nothing is left at a first child, unless there was formatting twice in front of a leaf. -/
theorem everywhere_lifted_hoist {node : Node} {fronts : List Trivia}
    (single : ∀ leaf ∈ node.leavesBehind fronts, leaf.fronts.length ≤ 1) :
    node.hoist.Everywhere Lifted := by
  induction node using Node.induction generalizing fronts with
  | step node induction =>
      rcases node with ⟨head, children⟩
      rw [hoist, hoistAll_eq_map]
      cases children with
      | nil =>
          exact everywhere_iff.2 ⟨nofun, nofun⟩
      | cons first rest =>
          rw [leavesBehind_cons, List.forall_mem_append] at single
          have here := induction first List.mem_cons_self single.1
          have there : ∀ child ∈ rest.map hoist, child.Everywhere Lifted := by
            refine List.forall_mem_map.2 fun child member => ?_
            have below : ∀ leaf ∈ child.leavesBehind [], leaf.fronts.length ≤ 1 :=
              fun leaf inside => single.2 leaf (List.mem_flatMap.2 ⟨child, member, inside⟩)
            exact induction child (List.mem_cons_of_mem _ member) below
          rw [List.map_cons, takeLeading]
          split
          case isTrue =>
            refine everywhere_iff.2 ⟨lifted_cons rfl, List.forall_mem_cons.2 ⟨?_, there⟩⟩
            exact everywhere_iff.2 ⟨here.here, fun below => here.child⟩
          case isFalse stays =>
            refine everywhere_iff.2 ⟨lifted_cons ?_, List.forall_mem_cons.2 ⟨here, there⟩⟩
            rw [← Bool.not_eq_true]
            intro formats
            rw [formats, Bool.true_and, Bool.not_eq_true', Bool.not_eq_false] at stays
            -- then the node and the child both have formatting in front of the first leaf
            have own : ownFront head = [head.leading.getD .empty] := ownFront_of_hasLeading stays
            rcases exists_leavesBehind first.hoist (fronts ++ ownFront head) with
              ⟨inner, kind, text, others, equal⟩
            rw [leavesBehind_hoist] at equal
            have many := single.1 _ (equal ▸ List.mem_cons_self)
            rw [ownFront_of_hasLeading formats, own] at many
            simp only [List.length_append, List.length_singleton] at many
            omega

/-! ## Trees of one shape -/

theorem length_leavesBehind_bare (node : Node) (fronts others : List Trivia) :
    (node.bare.leavesBehind others).length = (node.leavesBehind fronts).length := by
  induction node using Node.induction generalizing fronts others with
  | step node induction =>
      rcases node with ⟨head, children⟩
      rw [bare_mk]
      cases children with
      | nil => rfl
      | cons first rest =>
          have behind : (rest.map bare).map (·.leaves.length) = rest.map (·.leaves.length) := by
            rw [List.map_map]
            exact List.map_congr_left fun child member =>
              induction child (List.mem_cons_of_mem _ member) [] []
          rw [List.map_cons, leavesBehind_cons, leavesBehind_cons, List.length_append,
            List.length_append, List.length_flatMap, List.length_flatMap, behind,
            induction first List.mem_cons_self]

theorem length_leavesBehind_eq {node other : Node} (same : node.bare = other.bare)
    (fronts others : List Trivia) :
    (node.leavesBehind fronts).length = (other.leavesBehind others).length := by
  rw [← length_leavesBehind_bare node fronts [], same, length_leavesBehind_bare other others]

theorem length_leavesOfAll_eq {nodes others : List Node} (same : nodes.map bare = others.map bare)
    (fronts otherFronts : List Trivia) :
    (leavesOfAll fronts nodes).length = (leavesOfAll otherFronts others).length := by
  induction nodes generalizing others fronts otherFronts with
  | nil =>
      rw [List.map_eq_nil_iff.1 same.symm]
      rfl
  | cons node nodes induction =>
      cases others with
      | nil => cases same
      | cons other others =>
          rcases List.cons.inj same with ⟨first, behind⟩
          rw [leavesOfAll, leavesOfAll, List.length_append, List.length_append,
            length_leavesBehind_eq first, induction behind]

theorem content_eq_of_leading {node other : Node} (same : node.bare = other.bare)
    (leading : node.leading = other.leading)
    (children : node.children.map content = other.children.map content) :
    node.content = other.content := by
  have heads : headContent node.toNodeHead = headContent other.toNodeHead := by
    have bareHeads := congrArg Node.toNodeHead same
    rw [show node.bare.toNodeHead = _ from toNodeHead_mapHeads node,
      show other.bare.toNodeHead = _ from toNodeHead_mapHeads other] at bareHeads
    simp_all [bareHead, headContent]
  rw [content_eq, content_eq, heads, children]

theorem map_content_eq_of_each {nodes others : List Node} (same : nodes.map bare = others.map bare)
    (alike : (nodes.flatMap leaves).map (·.fronts) = (others.flatMap leaves).map (·.fronts))
    (each : ∀ node ∈ nodes, ∀ other ∈ others, node.bare = other.bare →
      node.leaves.map (·.fronts) = other.leaves.map (·.fronts) → node.content = other.content) :
    nodes.map content = others.map content := by
  induction nodes generalizing others with
  | nil =>
      rw [List.map_nil, eq_comm, List.map_eq_nil_iff] at same
      rw [same]
  | cons node rest induction =>
      cases others with
      | nil => cases same
      | cons other otherRest =>
          rw [List.map_cons, List.map_cons, List.cons.injEq] at same
          rw [List.flatMap_cons, List.flatMap_cons, List.map_append, List.map_append] at alike
          rcases List.append_inj alike (by
            rw [List.length_map, List.length_map, leaves, leaves,
              length_leavesBehind_eq same.1]) with ⟨here, there⟩
          rw [List.map_cons, List.map_cons,
            each node List.mem_cons_self other List.mem_cons_self same.1 here,
            induction same.2 there fun child member otherChild otherMember =>
              each child (List.mem_cons_of_mem _ member) otherChild
                (List.mem_cons_of_mem _ otherMember)]

/-- Lifted trees of the same shape with the same formatting in front of their leaves have it at the
same nodes. -/
theorem content_eq_of_fronts {node other : Node} (same : node.bare = other.bare)
    (formatted : node.Everywhere Formatted) (otherFormatted : other.Everywhere Formatted)
    (lifted : node.Everywhere Lifted) (otherLifted : other.Everywhere Lifted)
    {fronts others : List Trivia} (alike : (node.leavesBehind fronts).map (·.fronts) =
      (other.leavesBehind others).map (·.fronts)) :
    fronts ++ ownFront node.toNodeHead = others ++ ownFront other.toNodeHead ∧
      (ownFront node.toNodeHead = ownFront other.toNodeHead → node.content = other.content) := by
  induction node using Node.induction generalizing other fronts others with
  | step node induction =>
      have leading (own : ownFront node.toNodeHead = ownFront other.toNodeHead) :
          node.leading = other.leading :=
        leading_eq_of_ownFront formatted.here otherFormatted.here own
      have whole (children : node.children.map content = other.children.map content)
          (own : ownFront node.toNodeHead = ownFront other.toNodeHead) :
          node.content = other.content := content_eq_of_leading same (leading own) children
      have shapes := congrArg Node.children same
      rw [show node.bare.children = _ from children_mapHeads node,
        show other.bare.children = _ from children_mapHeads other] at shapes
      rcases node with ⟨head, children⟩
      rcases other with ⟨otherHead, otherChildren⟩
      cases children with
      | nil =>
          cases otherChildren with
          | cons => cases shapes
          | nil => exact ⟨by simpa [leavesBehind] using alike, whole rfl⟩
      | cons first rest =>
          cases otherChildren with
          | nil => cases shapes
          | cons otherFirst otherRest =>
              rw [List.map_cons, List.map_cons, List.cons.injEq] at shapes
              -- as many leaves of both trees belong to the first child
              rw [leavesBehind_cons, leavesBehind_cons, List.map_append, List.map_append] at alike
              rcases List.append_inj alike (by
                rw [List.length_map, List.length_map, length_leavesBehind_eq shapes.1]) with
                ⟨firstAlike, restAlike⟩
              rcases induction first List.mem_cons_self shapes.1
                (formatted.child List.mem_cons_self) (otherFormatted.child List.mem_cons_self)
                (lifted.child List.mem_cons_self) (otherLifted.child List.mem_cons_self) firstAlike
                with ⟨firstFronts, firstContent⟩
              have none := ownFront_of_not_hasLeading (lifted.here first rfl)
              have otherNone := ownFront_of_not_hasLeading (otherLifted.here otherFirst rfl)
              rw [none, otherNone, List.append_nil, List.append_nil] at firstFronts
              refine ⟨firstFronts, whole ?_⟩
              rw [List.map_cons, List.map_cons, firstContent (none.trans otherNone.symm),
                map_content_eq_of_each shapes.2 restAlike ?_]
              intro child member otherChild otherMember childSame childAlike
              have inside := List.mem_cons_of_mem first member
              have otherInside := List.mem_cons_of_mem otherFirst otherMember
              rcases induction child inside childSame (formatted.child inside)
                (otherFormatted.child otherInside) (lifted.child inside)
                (otherLifted.child otherInside) childAlike with ⟨fronts, childContent⟩
              exact childContent fronts

/-- What is known of a hoisted tree: where there is one piece of formatting in front of each
leaf, the tree follows from the shape and from these. -/
theorem content_hoist_eq_of_fronts {node other : Node} (same : node.bare = other.bare)
    (formatted : node.Everywhere Formatted) (otherFormatted : other.Everywhere Formatted)
    (alike : node.leaves.map (·.fronts) = other.leaves.map (·.fronts))
    (single : ∀ leaf ∈ node.leaves, leaf.fronts.length ≤ 1) :
    node.hoist.content = other.hoist.content := by
  have otherSingle : ∀ leaf ∈ other.leaves, leaf.fronts.length ≤ 1 := by
    intro leaf member
    have fronts : leaf.fronts ∈ node.leaves.map (·.fronts) := alike ▸ List.mem_map_of_mem member
    rcases List.mem_map.1 fronts with ⟨first, firstMember, equal⟩
    rw [← equal]
    exact single first firstMember
  rcases content_eq_of_fronts (by rw [bare_hoist, bare_hoist, same] : node.hoist.bare = _)
    (everywhere_formatted_hoist formatted) (everywhere_formatted_hoist otherFormatted)
    (everywhere_lifted_hoist single) (everywhere_lifted_hoist otherSingle)
    (by rw [leavesBehind_hoist, leavesBehind_hoist]; exact alike) with ⟨fronts, content⟩
  exact content fronts

theorem content_hoist_of_lifted {node : Node} (formatted : node.Everywhere Formatted)
    (lifted : node.Everywhere Lifted) (single : ∀ leaf ∈ node.leaves, leaf.fronts.length ≤ 1) :
    node.hoist.content = node.content := by
  rcases content_eq_of_fronts (bare_hoist node) (everywhere_formatted_hoist formatted) formatted
    (everywhere_lifted_hoist single) lifted
    (by rw [leavesBehind_hoist] : _ = (node.leavesBehind []).map (·.fronts)) with ⟨fronts, content⟩
  exact content fronts

end Verbatim.Node
