import Verbatim.Traversal.Visitor

/-! What a node is while its children are gone through: the first ones have become what hooks made
of them, the others are still as they were. -/

namespace Verbatim

def Transform.isKeep : Transform → Bool
  | keep => true
  | replace _ | splice _ => false

theorem Transform.eq_keep_of_isKeep {transform : Transform} (kept : transform.isKeep = true) :
    transform = .keep := by
  cases transform with
  | keep => rfl
  | replace node => cases kept
  | splice nodes => cases kept

/-- The answer of a second look, or the result so far if that is to stand. -/
def Transform.over (answer result : Transform) : Transform :=
  match answer with
  | keep => result
  | transform => transform

namespace Node

/-- What stands for the first children of a node, one for each transform. -/
def produced (node : Node) (transforms : List Transform) : List Node :=
  (List.zipWith (fun child transform => transform.nodes child) node.children transforms).flatten

/-- What stands for the first children, and then the other ones as they were. -/
def childrenAfter (node : Node) (transforms : List Transform) : List Node :=
  node.produced transforms ++ node.children.drop transforms.length

/-- The node with these children. As long as none of them has changed it is the very node. -/
def after (node : Node) (transforms : List Transform) : Node :=
  if transforms.all (·.isKeep) then node else node.withChildren (node.childrenAfter transforms)

variable {node child : Node} {transforms : List Transform} {rest : List Node}

@[simp] theorem after_nil (node : Node) : node.after [] = node := rfl

theorem produced_concat (next : node.children.drop transforms.length = child :: rest)
    (transform : Transform) :
    node.produced (transforms ++ [transform]) =
      node.produced transforms ++ transform.nodes child := by
  rw [produced, produced]
  generalize node.children = children at next
  induction transforms generalizing children with
  | nil =>
      cases next
      simp
  | cons first others induction =>
      cases children with
      | nil => cases next
      | cons other children =>
          rw [List.cons_append, List.zipWith_cons_cons, List.zipWith_cons_cons,
            List.flatten_cons, List.flatten_cons, induction children next, List.append_assoc]

theorem drop_of_drop_eq_cons {number : Nat} (next : node.children.drop number = child :: rest) :
    node.children.drop (number + 1) = rest := by
  rw [← List.drop_drop, next]
  rfl

theorem childrenAfter_concat (next : node.children.drop transforms.length = child :: rest)
    (transform : Transform) :
    node.childrenAfter (transforms ++ [transform]) =
      node.produced transforms ++ transform.nodes child ++ rest := by
  rw [childrenAfter, produced_concat next, List.length_append, List.length_singleton,
    drop_of_drop_eq_cons next]

theorem produced_of_all_isKeep (kept : transforms.all (·.isKeep) = true) :
    node.produced transforms = node.children.take transforms.length := by
  rw [produced]
  generalize node.children = children
  induction transforms generalizing children with
  | nil => simp
  | cons first others induction =>
      rw [List.all_cons, Bool.and_eq_true] at kept
      cases children with
      | nil => rfl
      | cons child rest =>
          rw [Transform.eq_keep_of_isKeep kept.1, List.zipWith_cons_cons, List.flatten_cons,
            induction kept.2, List.length_cons, List.take_succ_cons]
          rfl

theorem childrenAfter_of_all_isKeep (kept : transforms.all (·.isKeep) = true) :
    node.childrenAfter transforms = node.children := by
  rw [childrenAfter, produced_of_all_isKeep kept, List.take_append_drop]

@[simp] theorem children_after (node : Node) (transforms : List Transform) :
    (node.after transforms).children = node.childrenAfter transforms := by
  rw [after]
  split
  case isTrue kept => exact (childrenAfter_of_all_isKeep kept).symm
  case isFalse => rfl

theorem after_concat_keep (next : node.children.drop transforms.length = child :: rest) :
    node.after (transforms ++ [.keep]) = node.after transforms := by
  have same : node.childrenAfter (transforms ++ [.keep]) = node.childrenAfter transforms := by
    rw [childrenAfter_concat next, childrenAfter, next, List.append_assoc]
    rfl
  simp [after, same, Transform.isKeep]

end Node

end Verbatim
