import Verbatim.Proofs.Languages
import Verbatim.Proofs.Printing.Resolving
import Verbatim.Proofs.Reachable
import Verbatim.Proofs.Recipe.Cycles

/-! Only the content of a tree decides what is printed. A node that remembers where it was read is
given out as it stands there, any other node part by part; but both give the same, so it makes no
difference which nodes of a tree still remember. -/

namespace Verbatim

open Node

/-- The same error at a node without a number. -/
def PrintError.withoutNode : PrintError → PrintError
  | missingFormatting kind _ => .missingFormatting kind .unnumbered
  | missingText kind _ => .missingText kind .unnumbered

def seenOutcome {α β : Type} (view : α → β) : Except PrintError α → Except PrintError β
  | .ok value => .ok (view value)
  | .error error => .error error.withoutNode

theorem seenOutcome_bind {α β γ δ : Type} {view : α → β} {later : γ → δ}
    {first : Except PrintError α} {next : α → Except PrintError γ} {other : β → Except PrintError δ}
    (same : ∀ value, other (view value) = seenOutcome later (next value)) :
    (seenOutcome view first >>= other) = seenOutcome later (first >>= next) := by
  cases first with
  | error error => rfl
  | ok value => exact same value

/-! ## Layout -/

namespace Layout

def Place.content (place : Place) : Place := ⟨place.parent, place.before.map Node.content⟩

theorem memberIndent_content (before : List Node) (blockIndent : String) :
    memberIndent (before.map Node.content) blockIndent = memberIndent before blockIndent := by
  rw [memberIndent, memberIndent, List.filter_map, List.findSome?_map]
  simp only [Function.comp_def, is_content, leading_content]

variable (node previous : Node)

theorem afterSibling_content : afterSibling previous.content = afterSibling previous := by
  rw [afterSibling, afterSibling, is_content, text_content]

theorem endsName_content : endsName previous.content = endsName previous := by
  simp only [endsName, is_content]

theorem inline_content : inline node.content previous.content = inline node previous := by
  simp only [inline, kind_content, text_content, afterSibling_content, endsName_content]

theorem topLevel_content : topLevel node.content previous.content = topLevel node previous := by
  simp only [topLevel, kind_content, is_content]

theorem blockMember_content (before : List Node) (blockIndent : String) :
    blockMember node.content previous.content (before.map Node.content) blockIndent =
      blockMember node previous before blockIndent := by
  simp only [blockMember, isPunctuation_content, is_content, inline_content, memberIndent_content]

theorem leading_content (place : Option Place) (blockIndent : String) :
    leading node.content (place.map Place.content) blockIndent =
      seenOutcome id (leading node place blockIndent) := by
  have id : node.content.id = .unnumbered := by
    cases node
    rfl
  have previous : ((place.map Place.content).bind fun place =>
      place.before.head?.map fun sibling => (place, sibling)) =
      (place.bind fun place => place.before.head?.map fun sibling => (place, sibling)).map
        fun (place, sibling) => (place.content, sibling.content) := by
    rcases place with _ | ⟨parent, _ | ⟨sibling, others⟩⟩ <;> rfl
  rw [leading, leading, kind_content, id, previous]
  rcases (place.bind fun place => place.before.head?.map fun sibling => (place, sibling)) with
    _ | ⟨place, sibling⟩
  · cases node.kind with
    | custom custom => rcases custom with ⟨language, name, _ | text⟩ <;> rfl
    | _ => rfl
  · cases node.kind with
    | custom custom => rcases custom with ⟨language, name, _ | text⟩ <;> rfl
    | _ =>
        exact congrArg Except.ok (by
          simp only [Place.content, topLevel_content, blockMember_content, inline_content, id_eq])

end Layout

/-! ## Printing -/

namespace Node

mutual

theorem shown_content : ∀ node : Node, node.content.shown = node.written
  | ⟨head, children⟩ => by
      rw [content_mk, shown, written, shownOfAll_content children]
      rfl

theorem shownOfAll_content :
    ∀ nodes : List Node, shownOfAll (nodes.map content) = writtenOfAll nodes
  | [] => rfl
  | node :: rest => by
      rw [List.map_cons, shownOfAll, writtenOfAll, shown_content node, shownOfAll_content rest]

end

theorem everywhere_explicit_content_iff (node : Node) :
    node.content.Everywhere Explicit ↔ node.Everywhere Explicit := by
  rw [content_eq_mapHeads]
  exact @everywhere_explicit_mapHeads headContent (fun _ => ⟨rfl, rfl, rfl⟩) node

theorem everywhere_explicit_content {node : Node} (explicit : node.Everywhere Explicit) :
    node.content.Everywhere Explicit :=
  (everywhere_explicit_content_iff node).2 explicit

theorem everywhere_explicit_of_content {node other : Node} (same : node.content = other.content)
    (explicit : other.Everywhere Explicit) : node.Everywhere Explicit := by
  rw [← everywhere_explicit_content_iff, same, everywhere_explicit_content_iff]
  exact explicit

end Node

namespace Printer

theorem settleBrace_content (parent : Kind) (before : List Node) (page : Page) (node : Node) :
    settleBrace parent (before.map content) page node.content =
      (settleBrace parent before page node).content := by
  have moves : movesDown node.content (before.map content) = movesDown node before := by
    cases before <;> simp [movesDown]
  rw [settleBrace, settleBrace, moves]
  split
  · rw [content_withLeading]
  · rfl

theorem leadingOf_content (head : NodeHead) (children : List Node) (place : Option Layout.Place)
    (page : Page) :
    leadingOf (headContent head) (children.map content) (place.map Layout.Place.content) page =
      seenOutcome id (leadingOf head children place page) := by
  rw [leadingOf, leadingOf, show (headContent head).leading = head.leading from rfl, ← content_mk,
    Layout.leading_content]
  cases head.leading with
  | some leading => rfl
  | none => cases Layout.leading ⟨head, children⟩ place page.blockIndent <;> rfl

theorem lacksText_content (head : NodeHead) (children : List Node) :
    lacksText (headContent head) (children.map content) = lacksText head children := by
  rw [lacksText, lacksText, List.isEmpty_map]
  rfl

def seenNode (printed : Node × Page) : Node × Page := (printed.1.content, printed.2)

def seenNodes (printed : List Node × Page) : List Node × Page :=
  (printed.1.map content, printed.2)

mutual

/-- Where a node remembers its origin, printing its content gives the same text part by part; where
it does not, the parts are printed in either case. -/
theorem printHead_content : ∀ (children : List Node) (head : NodeHead) (page : Page)
    (place : Option Layout.Place), (Node.mk head children).Everywhere Faithful →
    printHead false page (place.map Layout.Place.content) (headContent head)
        (children.map content) =
      seenOutcome seenNode (printHead false page place head children)
  | children, head, page, place, faithful => by
      cases origin : head.origin with
      | some origin =>
          rcases faithful.here.explicit origin with ⟨-, text, explicit⟩
          have parts := printHead_explicit (content ⟨head, children⟩) page
            (place.map Layout.Place.content) (everywhere_explicit_content explicit)
          rw [shown_content, ← text, content_mk] at parts
          rw [parts, printHead, origin, ← content_mk]
          rfl
      | none =>
          have inside : ∀ page, printChildren false page head.kind [] (children.map content) =
              seenOutcome seenNodes (printChildren false page head.kind [] children) :=
            fun page => printChildren_content children page head.kind []
              fun child member => faithful.child member
          rw [printHead, printHead, origin, leadingOf_content]
          apply seenOutcome_bind
          intro leading
          simp only [lacksText_content, id_eq]
          split
          · rfl
          · apply (congrArg (· >>= _) (inside _)).trans
            apply seenOutcome_bind
            intro printed
            exact congrArg (fun node => Except.ok (node, _))
              (content_mk { head with leading := some leading, origin := none } printed.1).symm

theorem printChildren_content : ∀ (nodes : List Node) (page : Page) (parent : Kind)
    (before : List Node), (∀ node ∈ nodes, node.Everywhere Faithful) →
    printChildren false page parent (before.map content) (nodes.map content) =
      seenOutcome seenNodes (printChildren false page parent before nodes)
  | [], page, parent, before, _ => by simp [printChildren, seenOutcome, seenNodes]
  | ⟨head, children⟩ :: rest, page, parent, before, faithful => by
      have given := faithful ⟨head, children⟩ List.mem_cons_self
      have settled : (Node.mk (settleBrace parent before page ⟨head, children⟩).toNodeHead
          children).Everywhere Faithful := by
        rw [settleBrace]
        split
        · exact aboutOrigins_faithful.everywhere rfl fun child => given.child
        · exact given
      have first := printHead_content children _ page (some ⟨parent, before⟩) settled
      have others := fun page => printChildren_content rest page parent (⟨head, children⟩ :: before)
        fun node member => faithful node (List.mem_cons_of_mem _ member)
      have settle := settleBrace_content parent before page ⟨head, children⟩
      rw [content_mk] at settle
      rw [List.map_cons, content_mk, printChildren, printChildren, settle]
      have heads : (settleBrace parent before page ⟨head, children⟩).content.toNodeHead =
          headContent (settleBrace parent before page ⟨head, children⟩).toNodeHead := by
        cases settleBrace parent before page ⟨head, children⟩
        rfl
      rw [heads, show (some ⟨parent, before.map content⟩ : Option Layout.Place) =
        (some (Layout.Place.mk parent before)).map Layout.Place.content from rfl, first]
      apply seenOutcome_bind
      intro printed
      have later := others printed.2
      rw [List.map_cons, content_mk] at later
      apply (congrArg (· >>= _) later).trans
      apply seenOutcome_bind
      intro more
      rfl

end

theorem layOut_content {node : Node} (faithful : node.Everywhere Faithful) :
    layOut false node.content =
      seenOutcome (fun (resolved, text) => (resolved.content, text)) (layOut false node) := by
  rcases node with ⟨head, children⟩
  rw [content_mk, layOut, layOut]
  apply (congrArg (· >>= _) (printHead_content children head ⟨"", []⟩ none faithful)).trans
  apply seenOutcome_bind
  exact fun printed => rfl

end Printer

/-! ## Trees of the same content -/

/-- Both go well with results that are related, or both end with the same kind of error. -/
inductive EndAlike {α : Type} (related : α → α → Prop) :
    Except PrintError α → Except PrintError α → Prop
  | ok {value other : α} : related value other → EndAlike related (.ok value) (.ok other)
  | error {error other : PrintError} :
      error.withoutNode = other.withoutNode → EndAlike related (.error error) (.error other)

theorem endAlike_of_seen {α β γ : Type} {view : α → β} {answer : α → γ} {related : γ → γ → Prop}
    (relates : ∀ value other, view value = view other → related (answer value) (answer other))
    {first second : Except PrintError α} (same : seenOutcome view first = seenOutcome view second) :
    EndAlike related (first.map answer) (second.map answer) := by
  cases first with
  | ok value =>
      cases second with
      | ok other => exact .ok (relates value other (Except.ok.inj same))
      | error other => cases same
  | error error =>
      cases second with
      | ok other => cases same
      | error other => exact .error (Except.error.inj same)

namespace Node

/-- If the node remembers where it was read, it is a node of a tree that a reader gave, however that
tree is numbered. -/
def AsRead (node : Node) : Prop :=
  node.origin.isSome → ∃ text tree, (Java.parse text = .ok tree ∨
    Language.readPlainText text = .ok tree) ∧ ∃ part ∈ tree.preorder,
      node.withoutIds = part.withoutIds

theorem AsRead.faithful {node : Node} (asRead : node.AsRead) : node.Faithful := by
  intro remembers
  rcases asRead remembers with ⟨text, tree, read, part, member, same⟩
  have readFrom : tree.ReadFrom text := by
    rcases read with parsed | read
    · exact Java.parse_readFrom parsed
    · exact Language.readPlainText_readFrom read
  have faithful := readFrom.everywhere_faithful.below member
  exact (everywhere_faithful_of_withoutIds_eq same faithful).here remembers

end Node

/-- Whether trees have the same content is an equivalence. Trees of the same content print the same
text, and are the same when all their formatting is made explicit, or both cannot be printed, for
the same kind of reason: whichever of their nodes remember where they were read, if only those are
nodes that a reader gave. So a recipe that takes no notice of what a visitor gives back, because the
content is as before, leaves no difference in the text unnoticed. -/
theorem contentEq_prints_alike :
    (Equivalence fun first second : Node => first.contentEq second) ∧
      (∀ first second : Node, first.Everywhere AsRead → second.Everywhere AsRead →
        first.contentEq second →
        EndAlike Eq first.print second.print ∧
          EndAlike (fun resolved other : Node => resolved.contentEq other)
            first.resolveFormatting second.resolveFormatting) ∧
      ∀ (recipe : Recipe) (limits : WalkLimits) (visitor : Visitor) (tree changed : Node)
        (session after : Session), tree.Everywhere AsRead → changed.Everywhere AsRead →
        walk visitor limits tree session = (.ok (some changed), after) →
        (recipe.applyVisitor limits visitor tree).run.run session = (.ok none, after) →
        EndAlike Eq changed.print tree.print := by
  have alike : ∀ first second : Node, first.Everywhere AsRead → second.Everywhere AsRead →
      first.contentEq second → EndAlike Eq first.print second.print ∧
        EndAlike (fun resolved other : Node => resolved.contentEq other)
          first.resolveFormatting second.resolveFormatting := by
    intro first second firstRead secondRead same
    have layouts := Printer.layOut_content (firstRead.mono fun _ => AsRead.faithful)
    rw [contentEq_iff_content.1 same,
      Printer.layOut_content (secondRead.mono fun _ => AsRead.faithful)] at layouts
    constructor
    · exact endAlike_of_seen (fun _ _ equal => (Prod.mk.inj equal).2) layouts.symm
    · refine endAlike_of_seen (fun value other equal => ?_) layouts.symm
      rw [contentEq_iff_content, content_hoist, content_hoist, (Prod.mk.inj equal).1]
  refine ⟨contentEq_equivalence, alike, ?_⟩
  intro recipe limits visitor tree changed session after treeRead changedRead walked unnoticed
  rcases Recipe.applyVisitor_eq_ok.1 unnoticed with ⟨left, walkedAgain, filtered⟩
  have same : left = some changed :=
    Except.ok.inj (Prod.mk.inj (walkedAgain.symm.trans walked)).1
  rw [same] at filtered
  have unchanged := (Recipe.filter_eq_none_iff tree (some changed)).1 filtered.symm
  exact (alike changed tree changedRead treeRead unchanged).1

/-- A class whose root has forgotten where it was read prints as the class does. -/
theorem contentEq_prints_alike_of_class :
    ∃ tree : Node, Java.parse "class A \x7b\x7d" = .ok tree ∧
      EndAlike Eq { tree with origin := none }.print tree.print := by
  cases parsed : Java.parse "class A \x7b\x7d" with
  | error error =>
      have accepted : (Java.parse "class A \x7b\x7d").toOption.isSome = true := by decide +kernel
      rw [parsed] at accepted
      cases accepted
  | ok tree =>
      have treeRead : tree.Everywhere AsRead := by
        intro part member remembers
        exact ⟨_, tree, .inl parsed, part, member, rfl⟩
      have otherRead : Node.Everywhere AsRead { tree with origin := none } :=
        everywhere_iff.2 ⟨fun remembers => (Bool.false_ne_true remembers).elim,
          fun child inside => treeRead.child inside⟩
      have same : Node.contentEq { tree with origin := none } tree :=
        contentEq_iff_content.2 (by rcases tree with ⟨head, children⟩; rfl)
      exact ⟨tree, rfl, (contentEq_prints_alike.2.1 _ tree otherRead treeRead same).1⟩

end Verbatim
