import Verbatim.Proofs.Printing.Contents
import Verbatim.Proofs.Tree.Renumbering

/-! Printing a tree with other numbers. Nothing of a number is printed; only an error tells the node
that cannot be printed by its number. -/

namespace Verbatim

open Node

/-- The same error at a node with another number. -/
def PrintError.renumber (numbering : NodeId → NodeId) : PrintError → PrintError
  | missingFormatting kind node => .missingFormatting kind (numbering node)
  | missingText kind node => .missingText kind (numbering node)

theorem PrintError.withoutNode_renumber (numbering : NodeId → NodeId) (error : PrintError) :
    (error.renumber numbering).withoutNode = error.withoutNode := by
  cases error <;> rfl

/-- The same outcome, seen at nodes with other numbers. -/
def renumberOutcome {α β : Type} (numbering : NodeId → NodeId) (view : α → β) :
    Except PrintError α → Except PrintError β
  | .ok value => .ok (view value)
  | .error error => .error (error.renumber numbering)

theorem renumberOutcome_bind {α β γ δ : Type} {numbering : NodeId → NodeId} {view : α → β}
    {later : γ → δ} {first : Except PrintError α} {next : α → Except PrintError γ}
    {other : β → Except PrintError δ}
    (same : ∀ value, other (view value) = renumberOutcome numbering later (next value)) :
    (renumberOutcome numbering view first >>= other) =
      renumberOutcome numbering later (first >>= next) := by
  cases first with
  | error error => rfl
  | ok value => exact same value

variable (numbering : NodeId → NodeId)

/-! ## Layout -/

namespace Layout

def Place.renumber (place : Place) : Place :=
  ⟨place.parent, place.before.map (Node.renumber numbering)⟩

variable (node previous : Node)

theorem topLevel_renumber :
    topLevel (node.renumber numbering) (previous.renumber numbering) = topLevel node previous := by
  rw [← topLevel_content, content_renumber, content_renumber, topLevel_content]

theorem inline_renumber :
    inline (node.renumber numbering) (previous.renumber numbering) = inline node previous := by
  rw [← inline_content, content_renumber, content_renumber, inline_content]

theorem blockMember_renumber (before : List Node) (blockIndent : String) :
    blockMember (node.renumber numbering) (previous.renumber numbering)
        (before.map (Node.renumber numbering)) blockIndent =
      blockMember node previous before blockIndent := by
  have contents : (before.map (Node.renumber numbering)).map content = before.map content := by
    rw [List.map_map]
    exact List.map_congr_left fun sibling _ => content_renumber numbering sibling
  rw [← blockMember_content, content_renumber, content_renumber, contents, blockMember_content]

theorem leading_renumber (place : Option Place) (blockIndent : String) :
    leading (node.renumber numbering) (place.map (Place.renumber numbering)) blockIndent =
      renumberOutcome numbering id (leading node place blockIndent) := by
  have previous : ((place.map (Place.renumber numbering)).bind fun place =>
      place.before.head?.map fun sibling => (place, sibling)) =
      (place.bind fun place => place.before.head?.map fun sibling => (place, sibling)).map
        fun (place, sibling) => (place.renumber numbering, sibling.renumber numbering) := by
    rcases place with _ | ⟨parent, _ | ⟨sibling, others⟩⟩ <;> rfl
  rw [leading, leading, kind_renumber, id_renumber, previous]
  rcases (place.bind fun place => place.before.head?.map fun sibling => (place, sibling)) with
    _ | ⟨place, sibling⟩
  · cases node.kind with
    | custom custom => rcases custom with ⟨language, name, _ | text⟩ <;> rfl
    | _ => rfl
  · cases node.kind with
    | custom custom => rcases custom with ⟨language, name, _ | text⟩ <;> rfl
    | _ =>
        exact congrArg Except.ok (by
          simp only [Place.renumber, topLevel_renumber, blockMember_renumber, inline_renumber,
            id_eq])

end Layout

/-! ## Printing -/

namespace Printer

theorem settleBrace_renumber (parent : Kind) (before : List Node) (page : Page) (node : Node) :
    settleBrace parent (before.map (renumber numbering)) page (node.renumber numbering) =
      (settleBrace parent before page node).renumber numbering := by
  have moves : movesDown (node.renumber numbering) (before.map (renumber numbering)) =
      movesDown node before := by
    cases before <;> simp [movesDown]
  rw [settleBrace, settleBrace, moves]
  split
  · exact (renumber_withLeading _).symm
  · rfl

theorem leadingOf_renumber (head : NodeHead) (children : List Node) (place : Option Layout.Place)
    (page : Page) :
    leadingOf (renumberHead numbering head) (children.map (renumber numbering))
        (place.map (Layout.Place.renumber numbering)) page =
      renumberOutcome numbering id (leadingOf head children place page) := by
  have same : (renumberHead numbering head).leading = head.leading := rfl
  rw [leadingOf, leadingOf, same, ← renumber_mk, Layout.leading_renumber]
  cases head.leading with
  | some leading => rfl
  | none => cases Layout.leading ⟨head, children⟩ place page.blockIndent <;> rfl

theorem lacksText_renumber (head : NodeHead) (children : List Node) :
    lacksText (renumberHead numbering head) (children.map (renumber numbering)) =
      lacksText head children := by
  rw [lacksText, lacksText, List.isEmpty_map]
  rfl

mutual

theorem printHead_renumber (showMarkers : Bool) : ∀ (children : List Node) (head : NodeHead)
    (page : Page) (place : Option Layout.Place),
    printHead showMarkers page (place.map (Layout.Place.renumber numbering))
        (renumberHead numbering head) (children.map (renumber numbering)) =
      renumberOutcome numbering (Prod.map (renumber numbering) id)
        (printHead showMarkers page place head children)
  | children, head, page, place => by
      have same : (renumberHead numbering head).origin = head.origin := rfl
      cases read : head.origin with
      | some origin =>
          rw [printHead, printHead, same, read]
          exact congrArg (fun node => Except.ok (node, _))
            (renumber_mk numbering head children).symm
      | none =>
          rw [printHead, printHead, same, read, leadingOf_renumber]
          apply renumberOutcome_bind
          intro leading
          have kept : ∀ page, printChildren showMarkers page head.kind []
              (children.map (renumber numbering)) =
              renumberOutcome numbering (Prod.map (List.map (renumber numbering)) id)
                (printChildren showMarkers page head.kind [] children) :=
            fun page => printChildren_renumber showMarkers children page head.kind []
          rw [lacksText_renumber]
          cases lacks : lacksText head children with
          | true => rfl
          | false =>
              refine Eq.trans (congrArg (· >>= _) (kept _)) ?_
              apply renumberOutcome_bind
              intro printed
              exact congrArg (fun node => Except.ok (node, _)) (renumber_mk numbering
                { head with leading := some leading, origin := none } printed.1).symm

theorem printChildren_renumber (showMarkers : Bool) : ∀ (nodes : List Node) (page : Page)
    (parent : Kind) (before : List Node),
    printChildren showMarkers page parent (before.map (renumber numbering))
        (nodes.map (renumber numbering)) =
      renumberOutcome numbering (Prod.map (List.map (renumber numbering)) id)
        (printChildren showMarkers page parent before nodes)
  | [], page, parent, before => by
      rw [List.map_nil, printChildren, printChildren]
      rfl
  | ⟨head, children⟩ :: rest, page, parent, before => by
      have settle := settleBrace_renumber numbering parent before page ⟨head, children⟩
      have first := printHead_renumber showMarkers children
        (settleBrace parent before page ⟨head, children⟩).toNodeHead page (some ⟨parent, before⟩)
      have others := fun page => printChildren_renumber showMarkers rest page parent
        (⟨head, children⟩ :: before)
      rw [renumber_mk] at settle
      rw [List.map_cons, renumber_mk, printChildren, printChildren, settle, renumber_eq]
      refine Eq.trans (congrArg (· >>= _) first) ?_
      apply renumberOutcome_bind
      intro printed
      have later := others printed.2
      rw [List.map_cons, renumber_mk] at later
      refine Eq.trans (congrArg (· >>= _) later) ?_
      apply renumberOutcome_bind
      exact fun more => rfl

end

end Printer

theorem Node.print_renumber (tree : Node) :
    (tree.renumber numbering).print = renumberOutcome numbering id tree.print := by
  rcases tree with ⟨head, children⟩
  have printed := Printer.printHead_renumber numbering false children head ⟨"", []⟩ none
  rw [renumber_mk, print, print, Printer.layOut, Printer.layOut]
  simp only [Option.map_none] at printed
  rw [printed]
  cases Printer.printHead false ⟨"", []⟩ none head children <;> rfl

end Verbatim
