import Verbatim.Proofs.Tree.Views

/-! Trees from which nodes have been taken out, each with all that is below it. -/

namespace Verbatim.Node

variable {gone : Node → Bool}

mutual

/-- The tree without what is gone below its root. -/
def without (gone : Node → Bool) : Node → Node
  | ⟨head, children⟩ => ⟨head, withoutAll gone children⟩

def withoutAll (gone : Node → Bool) : List Node → List Node
  | [] => []
  | node :: rest =>
    if gone node then withoutAll gone rest else node.without gone :: withoutAll gone rest

end

theorem withoutAll_append (nodes others : List Node) :
    withoutAll gone (nodes ++ others) = withoutAll gone nodes ++ withoutAll gone others := by
  induction nodes with
  | nil => rfl
  | cons node rest induction =>
      rw [List.cons_append, withoutAll, withoutAll, induction]
      split <;> rfl

theorem withoutAll_singleton {node : Node} (stays : gone node = false) :
    withoutAll gone [node] = [node.without gone] := by
  rw [withoutAll, if_neg (Bool.eq_false_iff.1 stays), withoutAll]

mutual

theorem without_of_everywhere : ∀ node : Node, node.Everywhere (fun part => gone part = false) →
    node.without gone = node
  | ⟨head, children⟩, stays => by
      rw [without, withoutAll_of_everywhere children fun child => stays.child]

theorem withoutAll_of_everywhere : ∀ nodes : List Node,
    (∀ node ∈ nodes, node.Everywhere fun part => gone part = false) → withoutAll gone nodes = nodes
  | [], _ => rfl
  | node :: rest, stay => by
      rw [List.forall_mem_cons] at stay
      rw [withoutAll, if_neg (Bool.eq_false_iff.1 stay.1.here), without_of_everywhere node stay.1,
        withoutAll_of_everywhere rest stay.2]

end

mutual

theorem bare_without (blind : ∀ node, gone node.bare = gone node) :
    ∀ node : Node, (node.without gone).bare = node.bare.without gone
  | ⟨head, children⟩ => by
      rw [without, bare_mk, bare_mk, without, map_bare_withoutAll blind children]

theorem map_bare_withoutAll (blind : ∀ node, gone node.bare = gone node) :
    ∀ nodes : List Node, (withoutAll gone nodes).map bare = withoutAll gone (nodes.map bare)
  | [] => rfl
  | node :: rest => by
      rw [withoutAll, List.map_cons, withoutAll, blind]
      split
      · exact map_bare_withoutAll blind rest
      · rw [List.map_cons, bare_without blind node, map_bare_withoutAll blind rest]

end

end Verbatim.Node
