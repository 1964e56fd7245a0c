import Verbatim.Proofs.Edits.Annotations
import Verbatim.Proofs.Tree.Contents

/-! The tree that is left when annotations are removed. It has none of them any more, so that a
second walk leaves it alone. -/

namespace Verbatim

namespace RemoveAnnotations

variable {edit : RemoveAnnotations}

mutual

/-- The tree without the annotations that are removed. Where the first child of a declaration was
one, the next child stands in its place. -/
def cleared (edit : RemoveAnnotations) : Node → Node
  | ⟨head, children⟩ =>
    ⟨head, if head.kind.isDeclaration && edit.losesFirst ⟨head, children⟩ then
        stripAll (clearedAll edit children)
      else clearedAll edit children⟩

def clearedAll (edit : RemoveAnnotations) : List Node → List Node
  | [] => []
  | node :: rest =>
    if edit.removes node then clearedAll edit rest else cleared edit node :: clearedAll edit rest

end

theorem map_withoutOrigins_stripAll (nodes : List Node) :
    (stripAll nodes).map Node.withoutOrigins = stripAll (nodes.map Node.withoutOrigins) := by
  cases nodes with
  | nil => rfl
  | cons first rest =>
      rw [stripAll, List.map_cons, List.map_cons, stripAll, stripLeading, stripLeading,
        Node.leadingOrEmpty, Node.withoutOrigins_eq, Node.withoutOrigins_eq first]
      rfl

theorem withoutOrigins_of_turn {root : Node} {changed : Option Node}
    (kept : edit.removes root = false) (turned : edit.turn root = .ofOption changed) :
    (changed.getD root).withoutOrigins = (cleared edit root).withoutOrigins := by
  induction root using Node.induction generalizing changed with
  | step root induction =>
      have children : ∀ nodes : List Node, (∀ node ∈ nodes, node ∈ root.children) →
          (left edit nodes).map Node.withoutOrigins =
            (clearedAll edit nodes).map Node.withoutOrigins := by
        intro nodes inside
        induction nodes with
        | nil => rfl
        | cons node rest others =>
            have later := others fun other member => inside other (List.mem_cons_of_mem _ member)
            rw [clearedAll]
            rcases left_cons node rest with ⟨removed, isLeft⟩ | ⟨changed, stays, turned, isLeft⟩
            · rw [if_pos removed, isLeft, later]
            · rw [if_neg (Bool.eq_false_iff.1 stays), isLeft, List.map_cons, List.map_cons, later,
                induction node (inside node List.mem_cons_self) stays turned]
      have settled := settled_of_turn kept turned
      rw [Node.withoutOrigins_eq, settled.1, settled.2]
      rcases root with ⟨head, nodes⟩
      rw [cleared, Node.withoutOrigins_mk, Node.mk.injEq]
      refine ⟨rfl, ?_⟩
      split
      · rw [map_withoutOrigins_stripAll, children nodes fun _ member => member,
          ← map_withoutOrigins_stripAll]
      · exact children nodes fun _ member => member

/-! ## No annotation is left -/

/-- No node of the tree would be removed. -/
def Clear (edit : RemoveAnnotations) (node : Node) : Prop :=
  node.Everywhere fun part => edit.removes part = false

/-- There are no annotations in names. -/
def PlainName (node : Node) : Prop :=
  node.kind = .qualifiedName → node.Everywhere fun part => part.kind ≠ .annotationUse

theorem removes_content (node : Node) : edit.removes node.content = edit.removes node := by
  rw [removes, removes, Node.is_content, Node.childrenOfKind_content, List.head?_map]
  cases (node.childrenOfKind .qualifiedName).head? <;> simp

theorem removes_withoutOrigins (node : Node) :
    edit.removes node.withoutOrigins = edit.removes node := by
  rw [← removes_content, Node.content_withoutOrigins, removes_content]

theorem removes_of_kind {node : Node} (other : node.kind ≠ .annotationUse) :
    edit.removes node = false := by
  rw [removes, Node.is, decide_eq_false other, Bool.false_and]

theorem cleared_of_clear {node : Node} (clear : edit.Clear node) : cleared edit node = node := by
  induction node using Node.induction with
  | step node induction =>
      rcases node with ⟨head, children⟩
      have all : ∀ nodes : List Node, (∀ child ∈ nodes, child ∈ children) →
          clearedAll edit nodes = nodes := by
        intro nodes inside
        induction nodes with
        | nil => rfl
        | cons first rest others =>
            have member := inside first List.mem_cons_self
            have stays := (clear.child member).here
            rw [clearedAll, if_neg (Bool.eq_false_iff.1 stays), induction first member
              (clear.child member), others fun child later => inside child
                (List.mem_cons_of_mem _ later)]
      have first : edit.losesFirst ⟨head, children⟩ = false := by
        rw [losesFirst]
        cases children with
        | nil => rfl
        | cons first rest => exact (clear.child List.mem_cons_self).here
      rw [cleared, first, Bool.and_false, if_neg Bool.false_ne_true,
        all children fun _ member => member]

theorem kind_cleared (node : Node) : (cleared edit node).kind = node.kind := by
  cases node
  rw [cleared]

theorem filter_clearedAll {kind : Kind} (other : kind ≠ .annotationUse) (nodes : List Node) :
    (clearedAll edit nodes).filter (·.is kind) = (nodes.filter (·.is kind)).map (cleared edit) := by
  induction nodes with
  | nil => rfl
  | cons node rest induction =>
      have same : (cleared edit node).is kind = node.is kind := by
        rw [Node.is, Node.is, kind_cleared]
      rw [clearedAll, List.filter_cons]
      cases isKind : node.is kind with
      | false =>
          split
          · exact induction
          · rw [List.filter_cons, same, isKind, induction]
            rfl
      | true =>
          have stays : edit.removes node = false := by
            apply removes_of_kind
            rw [show node.kind = kind from of_decide_eq_true isKind]
            exact other
          rw [stays, if_neg Bool.false_ne_true, List.filter_cons, same, isKind, induction]
          rfl

theorem removes_cleared {node : Node} (stays : edit.removes node = false)
    (names : node.Everywhere PlainName) : edit.removes (cleared edit node) = false := by
  by_cases annotation : node.kind = .annotationUse
  · have children : (cleared edit node).children = clearedAll edit node.children := by
      rcases node with ⟨head, children⟩
      have noDeclaration : head.kind.isDeclaration = false := by
        rw [show head.kind = .annotationUse from annotation]
        rfl
      rw [cleared, noDeclaration, Bool.false_and, if_neg Bool.false_ne_true]
    have sameNames : (node.childrenOfKind .qualifiedName).map (cleared edit) =
        node.childrenOfKind .qualifiedName := by
      rw [← List.map_id (node.childrenOfKind .qualifiedName), List.map_map]
      apply List.map_congr_left
      intro name member
      rcases List.mem_filter.1 member with ⟨isChild, isName⟩
      have plain := (names.child isChild).here (of_decide_eq_true isName)
      exact cleared_of_clear (plain.mono fun _ => removes_of_kind)
    rw [removes, Node.is, kind_cleared, Node.childrenOfKind, children,
      filter_clearedAll (by decide), show node.children.filter (·.is .qualifiedName) =
        node.childrenOfKind .qualifiedName from rfl, sameNames]
    exact stays
  · apply removes_of_kind
    rw [kind_cleared]
    exact annotation

/-- What holds of every node once it has been cleared holds everywhere in the tree that is left, if
it does not speak of formatting. -/
theorem everywhere_cleared {property : Node → Prop}
    (blind : ∀ (node : Node) (leading : Trivia), property node →
      property (node.withLeading leading))
    {node : Node} (stays : edit.removes node = false)
    (here : ∀ part ∈ node.preorder, edit.removes part = false → property (cleared edit part)) :
    (cleared edit node).Everywhere property := by
  induction node using Node.induction with
  | step node induction =>
      have all : ∀ nodes : List Node, (∀ child ∈ nodes, child ∈ node.children) →
          ∀ child ∈ clearedAll edit nodes, child.Everywhere property := by
        intro nodes inside
        induction nodes with
        | nil => exact fun child member => absurd member List.not_mem_nil
        | cons first rest others =>
            have later := others fun child member => inside child (List.mem_cons_of_mem _ member)
            rw [clearedAll]
            split
            case isTrue => exact later
            case isFalse kept =>
              have isChild := inside first List.mem_cons_self
              have below := induction first isChild (Bool.not_eq_true _ ▸ kept) fun part member =>
                here part (Node.mem_preorder.2 (.inr ⟨first, isChild, member⟩))
              exact List.forall_mem_cons.2 ⟨below, later⟩
      refine Node.everywhere_iff.2 ⟨here node node.self_mem_preorder stays, ?_⟩
      rcases node with ⟨head, children⟩
      have left := all children fun _ inside => inside
      rw [cleared]
      simp only
      split
      case isFalse => exact left
      case isTrue =>
        cases isLeft : clearedAll edit children with
        | nil => exact fun child member => absurd member List.not_mem_nil
        | cons first rest =>
            rw [isLeft, List.forall_mem_cons] at left
            refine List.forall_mem_cons.2 ⟨?_, left.2⟩
            exact Node.everywhere_iff.2 ⟨blind first _ left.1.here, fun child => left.1.child⟩

theorem clear_cleared {node : Node} (stays : edit.removes node = false)
    (names : node.Everywhere PlainName) : edit.Clear (cleared edit node) :=
  everywhere_cleared (fun _ _ stays => stays) stays fun _ member stays =>
    removes_cleared stays (names.below member)

theorem ids_clearedAll_sublist (nodes : List Node) :
    ((clearedAll edit nodes).map (·.id)).Sublist (nodes.map (·.id)) := by
  induction nodes with
  | nil => exact .slnil
  | cons node rest induction =>
      rw [clearedAll, List.map_cons]
      split
      · exact .cons _ induction
      · have id : (cleared edit node).id = node.id := by
          cases node
          rw [cleared]
        rw [List.map_cons, id]
        exact .cons_cons _ induction

theorem distinct_cleared {node : Node} (stays : edit.removes node = false)
    (distinct : node.Everywhere Node.Distinct) : (cleared edit node).Everywhere Node.Distinct := by
  refine everywhere_cleared (fun _ _ distinct => distinct) stays fun part member _ => ?_
  have ids := (distinct part member).sublist (@ids_clearedAll_sublist edit part.children)
  rcases part with ⟨head, children⟩
  rw [Node.Distinct, cleared]
  simp only
  split
  case isFalse => exact ids
  case isTrue =>
    cases isLeft : clearedAll edit children with
    | nil => exact List.nodup_nil
    | cons first rest =>
        rw [show (Node.mk head children).children = children from rfl, isLeft] at ids
        exact ids

theorem turn_of_clear {node : Node} (clear : edit.Clear node) : edit.turn node = .keep := by
  induction node using Node.induction with
  | step node induction =>
      have all : (node.children.map edit.turn).all (·.isKeep) = true := by
        rw [List.all_map, List.all_eq_true]
        intro child member
        rw [Function.comp_apply, induction child member (clear.child member)]
        rfl
      have first : edit.losesFirst node = false := by
        rw [losesFirst]
        cases children : node.children with
        | nil => rfl
        | cons first rest =>
            exact (clear.child (children ▸ List.mem_cons_self)).here
      rw [turn_eq, if_neg (Bool.eq_false_iff.1 clear.here), settle, first, all, Bool.and_false]
      rfl

theorem clear_of_turn {root : Node} {changed : Option Node} (stays : edit.removes root = false)
    (names : root.Everywhere PlainName) (turned : edit.turn root = .ofOption changed) :
    edit.Clear (changed.getD root) :=
  Node.everywhere_of_mapHeads_eq (fun node => iff_of_eq (congrArg (· = false)
    (removes_withoutOrigins node))) (withoutOrigins_of_turn stays turned)
      (clear_cleared stays names)

theorem walks_of_distinct {limits : WalkLimits} (time : limits.expired = false) {root : Node}
    (distinct : root.Everywhere Node.Distinct) (names : root.Everywhere PlainName)
    (isFile : root.kind = .sourceFile) {session : Session} (going : session.cancelled = false) :
    ∃ changed after, walk edit.visitor limits root session = (.ok changed, after) ∧
      after.cancelled = false ∧
      (changed.getD root).withoutOrigins = (cleared edit root).withoutOrigins ∧
      ∀ session' : Session, session'.cancelled = false →
        ∃ ended, walk edit.visitor limits (changed.getD root) session' = (.ok none, ended) := by
  have stays : edit.removes root = false := removes_of_kind (by rw [isFile]; decide)
  rcases walk_of_distinct time distinct stays going with
    ⟨changed, after, walked, stillGoing, turned⟩
  have left := withoutOrigins_of_turn stays turned
  refine ⟨changed, after, walked, stillGoing, left, fun session' going' => ?_⟩
  have clear := clear_of_turn stays names turned
  have distinctLeft : (changed.getD root).Everywhere Node.Distinct :=
    Node.everywhere_of_mapHeads_eq Node.distinct_withoutOrigins_iff left
      (distinct_cleared stays distinct)
  rcases walk_of_distinct time distinctLeft clear.here going' with
    ⟨again, ended, walkedAgain, -, turnedAgain⟩
  rw [turn_of_clear clear] at turnedAgain
  cases again with
  | none => exact ⟨ended, walkedAgain⟩
  | some other => cases turnedAgain

end RemoveAnnotations

end Verbatim
