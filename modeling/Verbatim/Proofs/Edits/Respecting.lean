import Verbatim.Edits.ChangeText
import Verbatim.Edits.RenameIdentifier
import Verbatim.Proofs.Traversal.Erasing

/-! Edits that look at kinds and texts only, and change texts only. -/

namespace Verbatim

/-- Kinds and texts are not looked away from, and changing a text changes what is seen in the same
way wherever the nodes look the same. -/
structure Erasure.KeepsText (erasure : Erasure) : Prop where
  kind : ∀ head, (erasure.head head).kind = head.kind
  text : ∀ head, (erasure.head head).text = head.text
  changed : ∀ head text, erasure.head { head with text, origin := none } =
    { erasure.head head with text }

namespace Erasure

theorem origins_keepsText : origins.KeepsText := ⟨fun _ => rfl, fun _ => rfl, fun _ _ => rfl⟩

theorem content_keepsText : content.KeepsText := ⟨fun _ => rfl, fun _ => rfl, fun _ _ => rfl⟩

namespace KeepsText

variable {erasure : Erasure} {first second : Node}

theorem kind_of_node (keeps : erasure.KeepsText) (same : erasure.node first = erasure.node second) :
    first.kind = second.kind := by
  rw [← keeps.kind, head_of_node same, keeps.kind]

theorem text_of_node (keeps : erasure.KeepsText) (same : erasure.node first = erasure.node second) :
    first.text = second.text := by
  rw [← keeps.text, head_of_node same, keeps.text]

theorem withText_of_node (keeps : erasure.KeepsText)
    (same : erasure.node first = erasure.node second) (text : String) :
    erasure.node (first.withText text) = erasure.node (second.withText text) := by
  have changed (node : Node) : erasure.node (node.withText text) =
      { erasure.node node with text := some text } := by
    rw [node_eq, node_eq]
    exact congrArg (fun head => Node.mk head _) (keeps.changed node.toNodeHead (some text))
  rw [changed, changed, same]

theorem visit_ite (keeps : erasure.KeepsText) (same : erasure.node first = erasure.node second)
    {concerns : Bool} (text : String) :
    erasure.visit first (if concerns then .replace (first.withText text) else .keep) =
      erasure.visit second (if concerns then .replace (second.withText text) else .keep) := by
  cases concerns with
  | true =>
      exact congrArg (fun node => Visit.mk (.replace node) .descend)
        (keeps.withText_of_node same text)
  | false => exact congrArg (fun node => Visit.mk (.replace node) .descend) same

end KeepsText

end Erasure

theorem RenameIdentifier.visitor_respects (edit : RenameIdentifier) {erasure : Erasure}
    (keeps : erasure.KeepsText) : edit.visitor.Respects erasure := by
  apply Visitor.respects_of_answer
  intro first second same
  rw [visit, visit, Node.is, Node.is, keeps.kind_of_node same, keeps.text_of_node same]
  exact keeps.visit_ite same edit.new

theorem ChangeText.visitor_respects (edit : ChangeText) {erasure : Erasure}
    (keeps : erasure.KeepsText) : edit.visitor.Respects erasure := by
  apply Visitor.respects_of_answer
  intro first second same
  rw [visit, visit, Node.is, Node.is, keeps.kind_of_node same, keeps.text_of_node same]
  exact keeps.visit_ite same edit.text

end Verbatim
