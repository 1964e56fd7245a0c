import Verbatim.Proofs.Java.Shapes
import Verbatim.Proofs.Reachable

/-! Printing with markers. No node that was read has markers, and a node that gets some forgets
where it was read; so the comments of all markers are printed, each in front of the text of its
node. -/

namespace Verbatim

open Printer

namespace Node

/-! ## Nodes without markers -/

def Unmarked (node : Node) : Prop := node.origin.isSome → node.markers = []

theorem aboutOrigins_unmarked : AboutOrigins Unmarked := by
  intro node gone read
  rw [gone] at read
  cases read

theorem everywhere_unmarked_withoutIds (node : Node) :
    node.withoutIds.Everywhere Unmarked ↔ node.Everywhere Unmarked := by
  apply everywhere_mapHeads
  intro node
  rw [Unmarked, Unmarked, toNodeHead_mapHeads]

theorem everywhere_markers_of_bare {node other : Node} (same : node.bare = other.bare)
    (none : other.Everywhere fun part => part.markers = []) :
    node.Everywhere fun part => part.markers = [] :=
  everywhere_of_mapHeads_eq (fun part => by rw [toNodeHead_mapHeads, bareHead]) same none

end Node

open Node

theorem Java.everywhere_markers_of_parse {text : String} {tree : Node}
    (parsed : Java.parse text = .ok tree) : tree.Everywhere fun part => part.markers = [] := by
  rcases parse_yields parsed with ⟨taken, root, yields, bare⟩
  have anything (name : Rule) :
      (Rule.body name).Branches (fun _ _ => true) (fun _ => true) = true := by
    revert name
    decide
  exact everywhere_markers_of_bare bare (yields.everywhere (fun name _ => anything name)
    (fun _ _ _ => rfl) (fun _ _ => rfl) rfl root (List.mem_singleton_self root))

theorem Language.everywhere_markers_of_readPlainText {text : String} {tree : Node}
    (read : Language.readPlainText text = .ok tree) : tree.Everywhere fun part =>
      part.markers = [] := by
  refine everywhere_markers_of_bare (Language.bare_of_readPlainText read)
    (everywhere_iff.2 ⟨rfl, fun child member => ?_⟩)
  rw [List.mem_singleton.1 member]
  exact everywhere_iff.2 ⟨rfl, nofun⟩

theorem Reachable.everywhere_unmarked {node : Node} (reachable : Reachable node) :
    node.Everywhere Unmarked :=
  Built.everywhere aboutOrigins_unmarked everywhere_unmarked_withoutIds
    (fun parsed => (Java.everywhere_markers_of_parse parsed).mono fun _ none _ => none)
    (fun read => (Language.everywhere_markers_of_readPlainText read).mono fun _ none _ => none)
    reachable fun _ absent => absent.elim

namespace Node

/-! ## Texts with comments -/

def annotatedHead (head : NodeHead) : NodeHead :=
  { head with text := head.text.map (markerComments head.markers ++ ·) }

theorem mapHeads_annotatedHead_of_unmarked {node : Node}
    (none : node.Everywhere fun part => part.markers = []) :
    node.mapHeads annotatedHead = node := by
  induction node using Node.induction with
  | step node induction =>
      rcases node with ⟨head, children⟩
      have same : annotatedHead head = head := by
        rcases head with ⟨id, kind, leading, text, trailing, markers, origin⟩
        cases (none.here : markers = [])
        cases text <;> rfl
      rw [mapHeads_mk, same]
      exact congrArg _ ((List.map_congr_left fun child member =>
        induction child member (none.child member)).trans (List.map_id' _))

/-- Where only nodes with text have markers, the comments stand in front of the texts. -/
theorem shownWith_true {node : Node} (faithful : node.Everywhere Faithful)
    (unmarked : node.Everywhere Unmarked)
    (texts : node.Everywhere fun part => part.text = none → part.markers = []) :
    node.shownWith true = (node.mapHeads annotatedHead).written := by
  induction node using Node.induction with
  | step node induction =>
      cases read : node.origin with
      | some origin =>
          rcases faithful.here.explicit read with ⟨origins, text, -⟩
          have none : node.Everywhere fun part => part.markers = [] := fun part member =>
            unmarked part member (origins part member)
          rw [mapHeads_annotatedHead_of_unmarked none, ← text]
          rcases node with ⟨head, children⟩
          rw [shownWith]
          simp only [show head.origin = some origin from read]
      | none =>
          rcases node with ⟨head, children⟩
          have gone : head.origin = none := read
          clear read
          have inside : shownWithOfAll true children =
              writtenOfAll (children.map (mapHeads annotatedHead)) := by
            have each (child : Node) (member : child ∈ children) :=
              induction child member (faithful.child member)
                (unmarked.child member) (texts.child member)
            clear induction faithful unmarked texts
            induction children with
            | nil => rfl
            | cons first rest inductionRest =>
                rw [List.forall_mem_cons] at each
                rw [shownWithOfAll, List.map_cons, writtenOfAll, each.1, inductionRest each.2]
          have own : markerComments head.markers ++ head.text.getD "" =
              (annotatedHead head).text.getD "" := by
            cases text : head.text with
            | some text => simp [annotatedHead, text]
            | none =>
                rw [show head.markers = [] from texts.here text]
                simp [annotatedHead, text, markerComments, String.join_nil]
          rw [shownWith, mapHeads_mk, written, inside, ← own]
          simp only [gone, if_true, ← String.append_assoc]
          rfl

theorem printMarked_of_annotated {node : Node} (reachable : Reachable node)
    (explicit : node.Everywhere Explicit)
    (texts : node.Everywhere fun part => part.text = none → part.markers = []) :
    node.printMarked = .ok (node.mapHeads annotatedHead).written := by
  have faithful := reachable.everywhere_faithful fun _ absent => absent.elim
  rw [printMarked_of_explicit explicit, shownWith_true faithful reachable.everywhere_unmarked texts]

end Node

end Verbatim
