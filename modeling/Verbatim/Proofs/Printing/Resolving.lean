import Verbatim.Proofs.Tree.Provenance

/-! The tree that printing gives back. Nodes that are as they were read come back as they are; all
others come back without an origin. -/

namespace Verbatim

namespace Printer

open Node

variable {property : Node → Prop}

theorem settleBrace_mk (parent : Kind) (before : List Node) (page : Page) (head : NodeHead)
    (children : List Node) :
    (⟨(settleBrace parent before page ⟨head, children⟩).toNodeHead, children⟩ : Node) =
      settleBrace parent before page ⟨head, children⟩ := by
  rw [settleBrace]
  split <;> rfl

theorem everywhere_settleBrace (about : AboutOrigins property)
    {parent : Kind} {before : List Node} {page : Page} {node : Node}
    (holds : node.Everywhere property) :
    (settleBrace parent before page node).Everywhere property := by
  rw [settleBrace]
  split
  · exact about.everywhere rfl fun child member => holds.child member
  · exact holds

mutual

theorem printHead_everywhere (about : AboutOrigins property) {showMarkers : Bool} :
    ∀ (children : List Node) {head : NodeHead} {page after : Page} {place : Option Layout.Place}
      {resolved : Node}, (Node.mk head children).Everywhere property →
      printHead showMarkers page place head children = .ok (resolved, after) →
      resolved.Everywhere property
  | children, head, page, after, place, resolved, holds, printed => by
      rw [printHead] at printed
      cases origin : head.origin with
      | some origin =>
          rw [origin] at printed
          cases printed
          exact holds
      | none =>
          rw [origin] at printed
          simp only [exceptBind_eq_ok] at printed
          rcases printed with ⟨leading, -, printed⟩
          split at printed
          · cases printed
          · simp only [exceptBind_eq_ok] at printed
            rcases printed with ⟨⟨others, _⟩, childrenPrinted, finished⟩
            cases finished
            exact about.everywhere rfl (printChildren_everywhere about children
              (fun child member => holds.child member) childrenPrinted)

theorem printChildren_everywhere (about : AboutOrigins property) {showMarkers : Bool} :
    ∀ (nodes : List Node) {page after : Page} {parent : Kind} {before resolved : List Node},
      (∀ node ∈ nodes, node.Everywhere property) →
      printChildren showMarkers page parent before nodes = .ok (resolved, after) →
      ∀ node ∈ resolved, node.Everywhere property
  | [], page, after, parent, before, resolved, _, printed => by
      rw [printChildren] at printed
      cases printed
      exact fun node member => absurd member List.not_mem_nil
  | ⟨head, children⟩ :: rest, page, after, parent, before, resolved, holds, printed => by
      rw [printChildren] at printed
      simp only [exceptBind_eq_ok] at printed
      rcases printed with ⟨⟨first, middle⟩, firstPrinted, ⟨others, last⟩, restPrinted, finished⟩
      cases finished
      have given := holds ⟨head, children⟩ List.mem_cons_self
      have settled : (Node.mk (settleBrace parent before page ⟨head, children⟩).toNodeHead
          children).Everywhere property := by
        rw [settleBrace_mk]
        exact everywhere_settleBrace about given
      intro node member
      rcases List.mem_cons.1 member with rfl | member
      · exact printHead_everywhere about children settled firstPrinted
      · exact printChildren_everywhere about rest
          (fun node member => holds node (List.mem_cons_of_mem _ member)) restPrinted node member

end

end Printer

namespace Node

theorem AboutOrigins.resolveFormatting {property : Node → Prop} (about : AboutOrigins property)
    {node resolved : Node} (holds : node.Everywhere property)
    (succeeded : node.resolveFormatting = .ok resolved) : resolved.Everywhere property := by
  rw [Node.resolveFormatting, Printer.layOut] at succeeded
  cases printed : Printer.printHead false ⟨"", []⟩ none node.toNodeHead node.children with
  | error error =>
      rw [printed] at succeeded
      cases succeeded
  | ok pair =>
      rw [printed] at succeeded
      cases succeeded
      cases node
      exact about.hoist (Printer.printHead_everywhere about _ holds printed)

end Node

end Verbatim
