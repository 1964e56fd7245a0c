import Verbatim.Proofs.Printing.Numbered
import Verbatim.Proofs.Reachable

/-! When printing fails. Only nodes that are printed part by part can be at fault, and whether
one is does not depend on the page, on its place or on what else is printed. So the first of
them in preorder decides. -/

namespace Verbatim

open Printer

namespace Node

mutual

/-- The nodes that are printed part by part, in preorder: those that do not remember where they were
read, and lie below no node that does. -/
def made : Node → List Node
  | ⟨head, children⟩ =>
    match head.origin with
    | some _ => []
    | none => ⟨head, children⟩ :: madeOfAll children

def madeOfAll : List Node → List Node
  | [] => []
  | node :: rest => node.made ++ madeOfAll rest

end

/-- The node is of a custom kind that declares no formatting, and has none of its own. -/
def lacksLeading (node : Node) : Bool :=
  node.leading.isNone &&
    match node.kind with
    | .custom custom => custom.defaultLeading.isNone
    | _ => false

/-- Why the node cannot be printed part by part, if it cannot. -/
def fault? (node : Node) : Option PrintError :=
  if node.lacksLeading then some (.missingFormatting node.kind node.id)
  else if lacksText node.toNodeHead node.children then some (.missingText node.kind node.id)
  else none

theorem fault?_of_isPunctuation {node : Node} {text : String}
    (punctuation : node.isPunctuation text) : node.fault? = none := by
  simp only [isPunctuation, is, Bool.and_eq_true, decide_eq_true_eq] at punctuation
  simp [fault?, lacksLeading, lacksText, punctuation]

/-- A node that remembers where it was read has children that do so too. Origins are handed out to
whole trees, and every change of a node makes it forget. -/
def SharesOrigin (node : Node) : Prop :=
  node.origin.isSome → ∀ child ∈ node.children, child.origin.isSome

theorem aboutOrigins_sharesOrigin : AboutOrigins SharesOrigin := by
  intro node gone read
  rw [gone] at read
  cases read

theorem Faithful.sharesOrigin {node : Node} (faithful : node.Faithful) : node.SharesOrigin := by
  intro read child member
  rcases Option.isSome_iff_exists.1 read with ⟨origin, originEqual⟩
  exact (faithful.explicit originEqual).1 child (mem_preorder.2 (.inr ⟨child, member,
    child.self_mem_preorder⟩))

theorem made_of_none {node : Node} (gone : node.origin = none) :
    node.made = node :: madeOfAll node.children := by
  rcases node with ⟨head, children⟩
  have : head.origin = none := gone
  rw [made, this]

theorem made_of_origin {node : Node} (read : node.origin.isSome) : node.made = [] := by
  rcases node with ⟨head, children⟩
  rcases Option.isSome_iff_exists.1 read with ⟨origin, originEqual⟩
  have : head.origin = some origin := originEqual
  rw [made, this]

theorem madeOfAll_of_origins {nodes : List Node} (read : ∀ node ∈ nodes, node.origin.isSome) :
    madeOfAll nodes = [] := by
  induction nodes with
  | nil => rfl
  | cons first rest induction =>
      rw [List.forall_mem_cons] at read
      rw [madeOfAll, made_of_origin read.1, induction read.2, List.nil_append]

theorem findSome?_made_of_sound {node : Node} (shares : node.SharesOrigin)
    (sound : node.fault? = none) :
    node.made.findSome? fault? = (madeOfAll node.children).findSome? fault? := by
  cases read : node.origin with
  | none => rw [made_of_none read, List.findSome?_cons, sound]
  | some origin =>
      have here : node.origin.isSome := by rw [read]; rfl
      rw [made_of_origin here, madeOfAll_of_origins (shares here)]

end Node

namespace PrintError

def of? {α : Type} : Except PrintError α → Option PrintError
  | .error error => some error
  | .ok _ => none

theorem of?_eq_some_iff {α : Type} {outcome : Except PrintError α} {error : PrintError} :
    of? outcome = some error ↔ outcome = .error error := by
  cases outcome <;> simp [of?]

theorem of?_map {α β : Type} (change : α → β) (outcome : Except PrintError α) :
    of? (outcome.map change) = of? outcome := by
  cases outcome <;> rfl

/-- When the second step fails in the same way whatever the first one gives, the first error is that
of the first step or else that of the second. -/
theorem of?_bind {α β : Type} {first : Except PrintError α} {next : α → Except PrintError β}
    {later : Option PrintError} (same : ∀ value, of? (next value) = later) :
    of? (first >>= next) = (of? first).or later := by
  cases first with
  | error error => rfl
  | ok value => exact same value

theorem of?_bind_pure {α β : Type} (outcome : Except PrintError α) (change : α → β) :
    of? (outcome >>= fun value => pure (change value)) = of? outcome := by
  cases outcome <;> rfl

end PrintError

namespace Printer

open Node PrintError

theorem of?_leadingOf (head : NodeHead) (children : List Node) (place : Option Layout.Place)
    (page : Page) :
    of? (leadingOf head children place page) =
      if lacksLeading ⟨head, children⟩ then some (.missingFormatting head.kind head.id)
      else none := by
  rcases head with ⟨id, kind, leading, _⟩
  cases leading with
  | some leading => simp [leadingOf, lacksLeading, of?]
  | none =>
      rw [leadingOf, Layout.leading]
      cases kind with
      | custom custom =>
          rcases custom with ⟨language, name, _ | text⟩ <;>
            simp [lacksLeading, of?, bind, Except.bind, pure, Except.pure]
      | _ =>
          rcases place with _ | ⟨parent, _ | ⟨sibling, others⟩⟩ <;>
            simp [lacksLeading, of?, bind, Except.bind, pure, Except.pure]

theorem findSome?_made_settleBrace (parent : Kind) (before : List Node) (page : Page) {node : Node}
    (shares : node.SharesOrigin) :
    (settleBrace parent before page node).made.findSome? fault? = node.made.findSome? fault? := by
  rw [settleBrace]
  split
  next moves =>
    simp only [movesDown, Bool.and_eq_true] at moves
    let moved := node.withLeading (.ofWhitespace ("\n" ++ page.blockIndent))
    have brace : node.isPunctuation "\x7d" := moves.2.1.1
    have movedBrace : moved.isPunctuation "\x7d" := brace
    have movedShares : moved.SharesOrigin := aboutOrigins_sharesOrigin moved rfl
    rw [findSome?_made_of_sound shares (fault?_of_isPunctuation brace),
      findSome?_made_of_sound movedShares (fault?_of_isPunctuation movedBrace)]
    rfl
  · rfl

mutual

theorem of?_printHead (showMarkers : Bool) : ∀ (children : List Node) (head : NodeHead)
    (page : Page) (place : Option Layout.Place), (Node.mk head children).Everywhere SharesOrigin →
    of? (printHead showMarkers page place head children) =
      (made ⟨head, children⟩).findSome? fault?
  | children, head, page, place, shares => by
      cases gone : head.origin with
      | some origin =>
          rw [printHead, made, gone]
          rfl
      | none =>
          have below (page : Page) :
              of? (printChildren showMarkers page head.kind [] children) =
                (madeOfAll children).findSome? fault? :=
            of?_printChildren showMarkers children page head.kind []
              (fun child member => shares.child member)
          let behind : Option PrintError :=
            if lacksText head children then some (.missingText head.kind head.id)
            else (madeOfAll children).findSome? fault?
          have steps : of? (printHead showMarkers page place head children) =
              (of? (leadingOf head children place page)).or behind := by
            rw [printHead, gone]
            apply of?_bind
            intro leading
            dsimp only [behind]
            split
            · rfl
            · rw [of?_bind_pure, below]
          rw [steps, of?_leadingOf, made_of_none gone, List.findSome?_cons, fault?]
          by_cases openLeading : lacksLeading ⟨head, children⟩
          · simp [openLeading]
          · by_cases noText : lacksText head children <;> simp [behind, openLeading, noText]

theorem of?_printChildren (showMarkers : Bool) : ∀ (nodes : List Node) (page : Page)
    (parent : Kind) (before : List Node), (∀ node ∈ nodes, node.Everywhere SharesOrigin) →
    of? (printChildren showMarkers page parent before nodes) =
      (madeOfAll nodes).findSome? fault?
  | [], page, parent, before, _ => by
      rw [printChildren]
      rfl
  | ⟨head, children⟩ :: rest, page, parent, before, shares => by
      rw [List.forall_mem_cons] at shares
      let settled := settleBrace parent before page ⟨head, children⟩
      have settledEqual : Node.mk settled.toNodeHead children = settled :=
        settleBrace_mk parent before page head children
      have settledShares : (Node.mk settled.toNodeHead children).Everywhere SharesOrigin := by
        rw [settledEqual]
        exact everywhere_settleBrace aboutOrigins_sharesOrigin shares.1
      have first := of?_printHead showMarkers children settled.toNodeHead page
        (some ⟨parent, before⟩) settledShares
      have others (page : Page) := of?_printChildren showMarkers rest page parent
        (⟨head, children⟩ :: before) shares.2
      rw [settledEqual, findSome?_made_settleBrace parent before page shares.1.here] at first
      rw [printChildren, madeOfAll, List.findSome?_append, ← first]
      apply of?_bind
      rintro ⟨node, page⟩
      rw [of?_bind_pure, others]

end

theorem of?_layOut (showMarkers : Bool) {root : Node} (shares : root.Everywhere SharesOrigin) :
    of? (layOut showMarkers root) = root.made.findSome? fault? := by
  cases root
  rw [layOut, of?_bind_pure]
  exact of?_printHead showMarkers _ _ _ _ shares

end Printer

namespace Node

theorem fault?_isSome_iff (node : Node) :
    node.fault?.isSome ↔ node.lacksLeading ∨ lacksText node.toNodeHead node.children := by
  rw [fault?]
  by_cases openLeading : node.lacksLeading
  · simp [openLeading]
  · by_cases noText : lacksText node.toNodeHead node.children <;> simp [openLeading, noText]

/-- With or without the comments of markers, printing fails exactly when some node that is printed
part by part has a kind without any formatting or is a token without text. The error tells of the
first of these nodes in preorder. No sibling is ever looked up outside the list of children. -/
theorem print_fails_at_first_fault {root : Node} (shares : root.Everywhere SharesOrigin) :
    (∀ outcome ∈ [root.print, root.printMarked],
      ((∃ error, outcome = .error error) ↔
        ∃ node ∈ root.made, node.lacksLeading ∨ lacksText node.toNodeHead node.children) ∧
      ∀ error, outcome = .error error ↔ ∃ before node behind,
        root.made = before ++ node :: behind ∧ node.fault? = some error ∧
          ∀ other ∈ before, other.fault? = none) ∧
    ∀ showMarkers, layOutNumbered showMarkers root = .found (layOut showMarkers root) := by
  refine ⟨?_, fun showMarkers => layOutNumbered_eq showMarkers root⟩
  intro outcome isOutcome
  have first : PrintError.of? outcome = root.made.findSome? fault? := by
    simp only [List.mem_cons, List.not_mem_nil, or_false] at isOutcome
    rcases isOutcome with rfl | rfl
    · rw [print, PrintError.of?_map, of?_layOut false shares]
    · rw [printMarked, PrintError.of?_map, of?_layOut true shares]
  constructor
  · simp only [← PrintError.of?_eq_some_iff, first, ← fault?_isSome_iff, ← Option.isSome_iff_exists,
      List.findSome?_isSome_iff]
  · intro error
    rw [← PrintError.of?_eq_some_iff, first, List.findSome?_eq_some_iff]

/-- A file to which a node of a kind without any formatting is added. -/
theorem print_fails_at_unknown_kind :
    ∃ tree, Java.parse "class A\x7b\x7d" = .ok tree ∧
      (tree.withChildren (tree.children ++
        [branch (.custom ⟨"java", "record", none⟩) []])).Everywhere SharesOrigin ∧
      (tree.withChildren (tree.children ++ [branch (.custom ⟨"java", "record", none⟩) []])).print =
        .error (.missingFormatting (.custom ⟨"java", "record", none⟩) .unnumbered) := by
  let unknown := branch (.custom ⟨"java", "record", none⟩) []
  have evaluated : ((Java.parse "class A\x7b\x7d").toOption.map fun tree =>
      (tree.withChildren (tree.children ++ [unknown])).made.findSome? fault?) =
      some (some (.missingFormatting unknown.kind .unnumbered)) := by decide +kernel
  cases parsed : Java.parse "class A\x7b\x7d" with
  | error error =>
      rw [parsed] at evaluated
      cases evaluated
  | ok tree =>
      rw [parsed] at evaluated
      have reachable : Reachable (tree.withChildren (tree.children ++ [unknown])) := by
        refine .withChildren (.java parsed) fun child member => ?_
        rcases List.mem_append.1 member with member | member
        · exact .child (.java parsed) member
        · rw [List.mem_singleton.1 member]
          exact .branch _ fun child absent => absurd absent List.not_mem_nil
      have shares := (reachable.everywhere_faithful fun _ absent => absent.elim).mono
        fun _ => Faithful.sharesOrigin
      exact ⟨tree, rfl, shares, (((print_fails_at_first_fault shares).1 _ List.mem_cons_self).2 _).2
        (List.findSome?_eq_some_iff.1 (Option.some.inj evaluated))⟩

end Node

end Verbatim
