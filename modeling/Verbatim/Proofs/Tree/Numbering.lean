import Verbatim.Proofs.Tree.Views

/-! Numbered trees. The numbers grow from one sibling to the next, so siblings are never taken
for each other. -/

namespace Verbatim.Node

/-- All siblings are different elements. -/
def Distinct (node : Node) : Prop := (node.children.map (·.id)).Nodup

theorem distinct_withoutOrigins_iff (node : Node) : node.withoutOrigins.Distinct ↔
    node.Distinct := by
  have ids : node.withoutOrigins.children.map (·.id) = node.children.map (·.id) := by
    rw [withoutOrigins_eq, List.map_map]
    exact List.map_congr_left fun child _ => child.id_withoutOrigins
  rw [Distinct, Distinct, ids]

@[simp] theorem id_number (node : Node) (next : Nat) : (node.number next).1.id = ⟨next⟩ := by
  cases node
  rfl

mutual

theorem lt_number : ∀ (node : Node) (next : Nat), next < (node.number next).2
  | ⟨_, children⟩, next => by
      rw [number]
      exact le_numberAll children (next + 1)

theorem le_numberAll : ∀ (nodes : List Node) (next : Nat), next ≤ (numberAll next nodes).2
  | [], next => Nat.le_refl next
  | node :: rest, next => by
      rw [numberAll]
      exact Nat.le_trans (Nat.le_of_lt (lt_number node next)) (le_numberAll rest _)

end

theorem ids_numberAll (nodes : List Node) (next : Nat) :
    ((numberAll next nodes).1.map (·.id.number)).Pairwise (· < ·) ∧
      ∀ node ∈ (numberAll next nodes).1, next ≤ node.id.number := by
  induction nodes generalizing next with
  | nil => exact ⟨.nil, fun node member => absurd member List.not_mem_nil⟩
  | cons node rest induction =>
      rcases induction (node.number next).2 with ⟨growing, above⟩
      have later := lt_number node next
      rw [numberAll]
      simp only [List.map_cons, List.pairwise_cons, List.forall_mem_cons, List.mem_map, id_number]
      refine ⟨⟨?_, growing⟩, Nat.le_refl next, ?_⟩
      · rintro _ ⟨other, member, rfl⟩
        exact Nat.lt_of_lt_of_le later (above other member)
      · exact fun other member => Nat.le_trans (Nat.le_of_lt later) (above other member)

mutual

theorem distinct_number : ∀ (node : Node) (next : Nat), (node.number next).1.Everywhere Distinct
  | ⟨head, children⟩, next => by
      rw [number, everywhere_iff]
      refine ⟨?_, distinct_numberAll children (next + 1)⟩
      have growing := (ids_numberAll children (next + 1)).1
      rw [List.pairwise_map] at growing
      rw [Distinct, List.Nodup, List.pairwise_map]
      exact growing.imp fun less same => Nat.ne_of_lt less (congrArg NodeId.number same)

theorem distinct_numberAll : ∀ (nodes : List Node) (next : Nat),
    ∀ node ∈ (numberAll next nodes).1, node.Everywhere Distinct
  | [], _ => fun node member => absurd member List.not_mem_nil
  | node :: rest, next => by
      rw [numberAll]
      exact List.forall_mem_cons.2 ⟨distinct_number node next, distinct_numberAll rest _⟩

end

end Verbatim.Node
