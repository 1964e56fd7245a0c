import Verbatim.Printing.Printer
import Verbatim.Proofs.Tree.Sealing

/-! Printing trees that leave nothing to the layout. Where all formatting is explicit and every
token has its text, printing cannot fail, and a node prints the same wherever it stands. -/

namespace Verbatim

open Printer

namespace Node

/-- A token has its text. -/
def Spelled (node : Node) : Prop :=
  node.kind.isToken = true → node.children = [] → node.text.isSome

theorem Regular.spelled {node : Node} (regular : node.Regular) : node.Spelled := by
  intro isToken _
  rcases regular.leafOrBranch with ⟨-, text, -⟩ | ⟨notToken, -, -⟩
  · exact text
  · rw [isToken] at notToken
    cases notToken

/-- Nothing about the node is left to the layout. -/
structure Explicit (node : Node) : Prop where
  formatted : node.Formatted
  spelled : node.Spelled

theorem spelled_mapHeads {change : NodeHead → NodeHead}
    (keeps : ∀ head, (change head).kind = head.kind ∧
      (change head).text.isSome = head.text.isSome)
    (node : Node) : (node.mapHeads change).Spelled ↔ node.Spelled := by
  rw [Spelled, Spelled, children_mapHeads_eq_nil_iff, toNodeHead_mapHeads,
    (keeps node.toNodeHead).1, (keeps node.toNodeHead).2]

theorem everywhere_explicit_mapHeads {change : NodeHead → NodeHead}
    (keeps : ∀ head, (change head).kind = head.kind ∧
      (change head).text.isSome = head.text.isSome ∧ (change head).leading = head.leading)
    (node : Node) :
    (node.mapHeads change).Everywhere Explicit ↔ node.Everywhere Explicit := by
  apply everywhere_mapHeads
  intro node
  have spelled : (node.mapHeads change).Spelled ↔ node.Spelled :=
    spelled_mapHeads (fun head => ⟨(keeps head).1, (keeps head).2.1⟩) node
  have formatted : (node.mapHeads change).Formatted ↔ node.Formatted := by
    rw [Formatted, Formatted, toNodeHead_mapHeads, (keeps node.toNodeHead).2.2]
  constructor
  · exact fun explicit => ⟨formatted.1 explicit.formatted, spelled.1 explicit.spelled⟩
  · exact fun explicit => ⟨formatted.2 explicit.formatted, spelled.2 explicit.spelled⟩

mutual

/-- The text of a node: the text it was read from if it is as it was read, else that of its
parts. -/
def shown : Node → String
  | ⟨head, children⟩ =>
    match head.origin with
    | some origin => origin.text
    | none => (head.leading.getD .empty).text ++ head.text.getD "" ++ shownOfAll children ++
        head.trailing.text

def shownOfAll : List Node → String
  | [] => ""
  | node :: rest => node.shown ++ shownOfAll rest

end

theorem shownOfAll_append (nodes others : List Node) :
    shownOfAll (nodes ++ others) = shownOfAll nodes ++ shownOfAll others := by
  induction nodes with
  | nil => rw [List.nil_append, shownOfAll, String.empty_append]
  | cons first rest induction =>
      rw [List.cons_append, shownOfAll, shownOfAll, induction, String.append_assoc]

mutual

/-- The text of a node with the comments of its markers, if they are shown. -/
def shownWith (showMarkers : Bool) : Node → String
  | ⟨head, children⟩ =>
    match head.origin with
    | some origin => origin.text
    | none => (head.leading.getD .empty).text ++
        (if showMarkers then markerComments head.markers else "") ++ head.text.getD "" ++
        shownWithOfAll showMarkers children ++ head.trailing.text

def shownWithOfAll (showMarkers : Bool) : List Node → String
  | [] => ""
  | node :: rest => node.shownWith showMarkers ++ shownWithOfAll showMarkers rest

end

mutual

theorem shownWith_false : ∀ node : Node, node.shownWith false = node.shown
  | ⟨head, children⟩ => by
      rw [shownWith, shown, shownWithOfAll_false children]
      cases head.origin <;> simp

theorem shownWithOfAll_false : ∀ nodes : List Node, shownWithOfAll false nodes = shownOfAll nodes
  | [] => rfl
  | node :: rest => by
      rw [shownWithOfAll, shownOfAll, shownWith_false node, shownWithOfAll_false rest]

end

theorem shown_of_origin {node : Node} {origin : Origin} (read : node.origin = some origin) :
    node.shown = origin.text := by
  rcases node with ⟨head, children⟩
  rw [shown]
  simp only [show head.origin = some origin from read]

mutual

theorem shown_withoutOrigins : ∀ node : Node, node.withoutOrigins.shown = node.written
  | ⟨head, children⟩ => by
      rw [withoutOrigins_mk, shown, written, shownOfAll_withoutOrigins children]

theorem shownOfAll_withoutOrigins :
    ∀ nodes : List Node, shownOfAll (nodes.map withoutOrigins) = writtenOfAll nodes
  | [] => rfl
  | node :: rest => by
      rw [List.map_cons, shownOfAll, writtenOfAll, shown_withoutOrigins node,
        shownOfAll_withoutOrigins rest]

end

end Node

namespace Printer

open Node

theorem settleBrace_of_formatted {parent : Kind} {before : List Node} {page : Page} {node : Node}
    (formatted : ∀ sibling ∈ before, sibling.Formatted) :
    settleBrace parent before page node = node := by
  have stays : movesDown node before = false := by
    cases before with
    | nil => simp [movesDown]
    | cons previous others =>
        have decided := formatted previous List.mem_cons_self
        rw [Formatted, Option.isSome_iff_ne_none] at decided
        simp [movesDown, decided]
  rw [settleBrace, stays, Bool.and_false, if_neg (by decide)]

theorem lacksText_of_explicit {head : NodeHead} {children : List Node}
    (explicit : Explicit ⟨head, children⟩) : lacksText head children = false := by
  have spelled := explicit.spelled
  cases children with
  | cons first rest => simp [lacksText]
  | nil =>
      cases token : head.kind.isToken with
      | false => simp [lacksText, token]
      | true =>
          have text := spelled token rfl
          rw [Option.isSome_iff_ne_none] at text
          simp [lacksText, text]

mutual

theorem printHead_shownWith (showMarkers : Bool) : ∀ (node : Node) (page : Page)
    (place : Option Layout.Place), node.Everywhere Explicit →
    printHead showMarkers page place node.toNodeHead node.children =
      .ok (node, ⟨page.text ++ node.shownWith showMarkers, page.blockIndents⟩)
  | ⟨head, children⟩, page, place, explicit => by
      rw [printHead, shownWith]
      cases origin : head.origin with
      | some origin => rfl
      | none =>
          rcases Option.isSome_iff_exists.1 explicit.here.formatted with ⟨leading, leadingEqual⟩
          have inside : ∀ page, printChildren showMarkers page head.kind [] children =
              .ok
                (children, ⟨page.text ++ shownWithOfAll showMarkers children, page.blockIndents⟩) :=
            fun page => printChildren_shownWith showMarkers children page head.kind []
              (fun child member => explicit.child member) (by simp)
          have text := lacksText_of_explicit explicit.here
          rcases head with ⟨id, kind, _, _, trailing, markers, _⟩
          cases origin
          cases leadingEqual
          simp only [leadingOf, text, bind, Except.bind, pure, Except.pure, Bool.false_eq_true,
            if_false, Option.getD_some, inside]
          by_cases block : kind = .block <;> cases showMarkers <;>
            simp [block, Page.put, Page.openBlock, Page.closeBlock, String.append_assoc]

theorem printChildren_shownWith (showMarkers : Bool) : ∀ (nodes : List Node) (page : Page)
    (parent : Kind) (before : List Node), (∀ node ∈ nodes, node.Everywhere Explicit) →
    (∀ sibling ∈ before, sibling.Formatted) →
    printChildren showMarkers page parent before nodes =
      .ok (nodes, ⟨page.text ++ shownWithOfAll showMarkers nodes, page.blockIndents⟩)
  | [], page, parent, before, _, _ => by simp [printChildren, shownWithOfAll]
  | ⟨head, children⟩ :: rest, page, parent, before, explicit, formatted => by
      have here := explicit ⟨head, children⟩ List.mem_cons_self
      have before' : ∀ sibling ∈ Node.mk head children :: before, sibling.Formatted := by
        intro sibling member
        rcases List.mem_cons.1 member with rfl | member
        · exact here.here.formatted
        · exact formatted sibling member
      have first := printHead_shownWith showMarkers ⟨head, children⟩ page
        (some ⟨parent, before⟩) here
      have others := printChildren_shownWith showMarkers rest
        ⟨page.text ++ shownWith showMarkers ⟨head, children⟩, page.blockIndents⟩ parent
        (⟨head, children⟩ :: before)
        (fun node member => explicit node (List.mem_cons_of_mem _ member)) before'
      rw [printChildren, settleBrace_of_formatted formatted, first]
      simp only [bind, Except.bind, pure, Except.pure, others, shownWithOfAll, String.append_assoc]

end

theorem printHead_explicit (node : Node) (page : Page) (place : Option Layout.Place)
    (explicit : node.Everywhere Explicit) :
    printHead false page place node.toNodeHead node.children =
      .ok (node, ⟨page.text ++ node.shown, page.blockIndents⟩) := by
  rw [printHead_shownWith false node page place explicit, shownWith_false]

end Printer

namespace Node

theorem print_of_explicit {node : Node} (explicit : node.Everywhere Explicit) :
    node.print = .ok node.shown := by
  rw [print, layOut, printHead_explicit node ⟨"", []⟩ none explicit]
  simp [Except.map, bind, Except.bind, pure, Except.pure]

theorem printMarked_of_explicit {node : Node} (explicit : node.Everywhere Explicit) :
    node.printMarked = .ok (node.shownWith true) := by
  rw [printMarked, layOut, printHead_shownWith true node ⟨"", []⟩ none explicit]
  simp [Except.map, bind, Except.bind, pure, Except.pure]

theorem print_of_origin {node : Node} {origin : Origin} (read : node.origin = some origin) :
    node.print = .ok origin.text := by
  rw [print, layOut, printHead, read]
  simp [Except.map, bind, Except.bind, pure, Except.pure, Page.put]

end Node

end Verbatim
