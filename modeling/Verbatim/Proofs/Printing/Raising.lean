import Verbatim.Proofs.Printing.Failing
import Verbatim.Proofs.Tree.Lifting

/-! Hoisting as it is seen from outside. Formatting goes up from first children along the edge
that a node and its first children form, nothing else changes, and the tree prints as before.
Where only tokens had formatting none is left at a first child, and hoisting again changes
nothing. -/

namespace Verbatim

namespace Node

/-! ## Where formatting comes from -/

/-- What has become of the formatting of the node at a path. -/
inductive Raised (tree hoisted : Node) (path : List Nat) (before after : Node) : Prop
  | stays : after.leading = before.leading → Raised tree hoisted path before after
  /-- The node had none, and takes that of a node further down the edge. -/
  | takes (steps : Nat) (source : Node) : before.leading = some .empty →
      tree.descendant? (path ++ List.replicate (steps + 1) 0) = some source →
      source.hasLeading = true → after.leading = source.leading →
      Raised tree hoisted path before after
  /-- The node is a first child, and a node further up the edge has taken its formatting. -/
  | gives (above : List Nat) (steps : Nat) (target : Node) : before.hasLeading = true →
      path = above ++ List.replicate (steps + 1) 0 → hoisted.descendant? above = some target →
      target.leading = before.leading → after.leading = some .empty →
      Raised tree hoisted path before after

theorem leading_eq_of_formatted {node : Node} (formatted : node.Formatted) :
    node.leading = some node.leadingOrEmpty := by
  obtain ⟨leading, equal⟩ := Option.isSome_iff_exists.1 formatted
  rw [leadingOrEmpty, equal, Option.getD_some]

theorem leading_eq_empty {node : Node} (formatted : node.Formatted)
    (bareNode : node.hasLeading = false) : node.leading = some .empty := by
  rw [hasLeading, Bool.not_eq_false'] at bareNode
  rw [leading_eq_of_formatted formatted, Trivia.eq_empty_of_isEmpty bareNode]

theorem hasLeading_congr {node other : Node} (same : node.leading = other.leading) :
    node.hasLeading = other.hasLeading := by
  rw [hasLeading, hasLeading, leadingOrEmpty, leadingOrEmpty, same]

theorem descendant?_cons {node child : Node} {place : Nat}
    (isChild : node.children[place]? = some child) (path : List Nat) :
    node.descendant? (place :: path) = child.descendant? path := by
  rw [descendant?, isChild, Option.bind_some]

theorem hoist_cons (head : NodeHead) (first : Node) (rest : List Node) :
    (first.hoist.hasLeading = true ∧ hasLeading ⟨head, first :: rest⟩ = false ∧
      hoist ⟨head, first :: rest⟩ =
        ⟨{ head with leading := some first.hoist.leadingOrEmpty, origin := none },
          first.hoist.withLeading .empty :: rest.map hoist⟩) ∨
    hoist ⟨head, first :: rest⟩ =
      ⟨{ head with origin := none }, first.hoist :: rest.map hoist⟩ := by
  rw [hoist, hoistAll_eq_map, List.map_cons]
  rcases takeLeading_cons head first.hoist (rest.map hoist) with ⟨moves, bareNode, equal⟩ | equal
  · refine .inl ⟨moves, ?_, equal⟩
    rw [hasLeading, leadingOrEmpty, bareNode]
    rfl
  · exact .inr equal

theorem leading_hoist {node : Node} (formatted : node.Everywhere Formatted) :
    node.hoist.leading = node.leading ∨
      node.leading = some .empty ∧ ∃ steps source,
        node.descendant? (List.replicate (steps + 1) 0) = some source ∧
        source.hasLeading = true ∧ node.hoist.leading = source.leading := by
  induction node using Node.induction with
  | step node induction =>
      rcases node with ⟨head, children⟩
      cases children with
      | nil => exact .inl rfl
      | cons first rest =>
          rcases hoist_cons head first rest with ⟨moves, bareNode, equal⟩ | equal
          · have firstFormatted : first.Everywhere Formatted := formatted.child List.mem_cons_self
            have taken : (hoist ⟨head, first :: rest⟩).leading = first.hoist.leading := by
              rw [equal, leading_eq_of_formatted (everywhere_formatted_hoist firstFormatted).here]
            refine .inr ⟨leading_eq_empty formatted.here bareNode, ?_⟩
            rcases induction first List.mem_cons_self firstFormatted with own | ⟨-, further⟩
            · refine ⟨0, first, rfl, ?_, taken.trans own⟩
              rwa [← hasLeading_congr own]
            · obtain ⟨steps, source, found, formats, leading⟩ := further
              exact ⟨steps + 1, source, found, formats, taken.trans leading⟩
          · rw [equal]
            exact .inl rfl

theorem Raised.below {tree hoisted child raised before after : Node} {place : Nat} {path : List Nat}
    (down : ∀ path, tree.descendant? (place :: path) = child.descendant? path)
    (hoistedDown : ∀ path, hoisted.descendant? (place :: path) = raised.descendant? path)
    (inside : Raised child raised path before after) :
    Raised tree hoisted (place :: path) before after := by
  cases inside with
  | stays same => exact .stays same
  | takes steps source bareNode found formats leading =>
      rw [← down] at found
      exact .takes steps source bareNode found formats leading
  | gives above steps target formats isPath found leading empty =>
      rw [← hoistedDown] at found
      exact .gives (place :: above) steps target formats (by rw [isPath]; rfl) found leading empty

/-- What happens below a first child whose formatting the node has taken. -/
theorem exists_raised_first {tree hoisted first before after : Node} {path : List Nat}
    (formatted : first.Everywhere Formatted)
    (down : ∀ path, tree.descendant? (0 :: path) = first.descendant? path)
    (hoistedDown : ∀ path, hoisted.descendant? (0 :: path) =
      (first.hoist.withLeading .empty).descendant? path)
    (moves : first.hoist.hasLeading = true) (taken : hoisted.leading = first.hoist.leading)
    (found : first.descendant? path = some before)
    (isAfter : first.hoist.descendant? path = some after)
    (inside : Raised first first.hoist path before after) :
    ∃ after, hoisted.descendant? (0 :: path) = some after ∧
      Raised tree hoisted (0 :: path) before after := by
  cases path with
  | nil =>
      cases found
      refine ⟨first.hoist.withLeading .empty, hoistedDown [], ?_⟩
      rcases leading_hoist formatted with own | ⟨bareNode, -⟩
      · rw [hasLeading_congr own] at moves
        exact .gives [] 0 hoisted moves rfl rfl (taken.trans own) rfl
      · exact .stays bareNode.symm
  | cons place path =>
      refine ⟨after, (hoistedDown (place :: path)).trans isAfter, ?_⟩
      cases inside with
      | stays same => exact .stays same
      | takes steps source bareNode isSource formats leading =>
          exact .takes steps source bareNode ((down _).trans isSource) formats leading
      | gives above steps target formats isPath isTarget leading empty =>
          cases above with
          | nil =>
              -- the target was the first child itself, which has passed the formatting on
              cases isTarget
              have further : 0 :: place :: path = [] ++ List.replicate (steps + 1 + 1) 0 := by
                rw [isPath]
                rfl
              exact .gives [] (steps + 1) hoisted formats further rfl (taken.trans leading) empty
          | cons next above =>
              have further : 0 :: place :: path =
                  (0 :: next :: above) ++ List.replicate (steps + 1) 0 := by
                rw [isPath]
                rfl
              exact .gives (0 :: next :: above) steps target formats further
                ((hoistedDown _).trans isTarget) leading empty

/-- Formatting moves only from first children, and only up the edge. -/
theorem raised_hoist {node : Node} (formatted : node.Everywhere Formatted) {path : List Nat}
    {before : Node} (found : node.descendant? path = some before) :
    ∃ after, node.hoist.descendant? path = some after ∧
      Raised node node.hoist path before after := by
  induction node using Node.induction generalizing path before with
  | step node induction =>
      cases path with
      | nil =>
          cases found
          refine ⟨node.hoist, rfl, ?_⟩
          rcases leading_hoist formatted with
            same | ⟨bareNode, steps, source, isSource, formats, same⟩
          · exact .stays same
          · exact .takes steps source bareNode isSource formats same
      | cons place path =>
          rcases node with ⟨head, children⟩
          obtain ⟨child, isChild, inside⟩ := Option.bind_eq_some_iff.1 found
          have member := List.mem_of_getElem? isChild
          have below := formatted.child member
          obtain ⟨after, isAfter, raised⟩ := induction child member below inside
          have down : ∀ path, descendant? ⟨head, children⟩ (place :: path) =
              child.descendant? path :=
            descendant?_cons isChild
          cases children with
          | nil => cases isChild
          | cons first rest =>
              -- all children but a first one that is bared are hoisted by themselves
              have apart
                  (kept : (hoist ⟨head, first :: rest⟩).children[place]? = some child.hoist) :
                  ∃ after, (hoist ⟨head, first :: rest⟩).descendant? (place :: path) = some after ∧
                    Raised ⟨head, first :: rest⟩ (hoist ⟨head, first :: rest⟩) (place :: path)
                      before after := by
                have hoistedDown := descendant?_cons kept
                exact ⟨after, (hoistedDown path).trans isAfter, raised.below down hoistedDown⟩
              rcases hoist_cons head first rest with ⟨moves, -, equal⟩ | equal
              · cases place with
                | zero =>
                    cases isChild
                    have taken : (hoist ⟨head, child :: rest⟩).leading = child.hoist.leading := by
                      rw [equal, leading_eq_of_formatted (everywhere_formatted_hoist below).here]
                    exact exists_raised_first below down
                      (fun path => by rw [equal]; rfl) moves taken
                      inside isAfter raised
                | succ place =>
                    apply apart
                    have isRest : rest[place]? = some child := isChild
                    rw [equal, List.getElem?_cons_succ, List.getElem?_map, isRest]
                    rfl
              · apply apart
                rw [equal, ← List.map_cons, List.getElem?_map, isChild]
                rfl

/-! ## Printing -/

def textFault? (node : Node) : Option PrintError :=
  if Printer.lacksText node.toNodeHead node.children then some (.missingText node.kind node.id)
  else none

theorem fault?_of_formatted {node : Node} (formatted : node.Formatted) :
    node.fault? = node.textFault? := by
  have decided : node.lacksLeading = false := by
    rw [lacksLeading, leading_eq_of_formatted formatted]
    rfl
  rw [fault?, decided, textFault?, if_neg Bool.false_ne_true]

theorem textFault?_unlaid (node : Node) : node.unlaid.textFault? = node.textFault? := by
  rcases node with ⟨head, children⟩
  have same : (children.map unlaid).isEmpty = children.isEmpty := by cases children <;> rfl
  rw [unlaid_mk, textFault?, textFault?, Printer.lacksText, Printer.lacksText, same]

theorem textFault?_eq_none_iff {node : Node} : node.textFault? = none ↔ node.Spelled := by
  rw [textFault?, Spelled]
  cases text : node.text <;> cases children : node.children <;> cases token : node.kind.isToken <;>
    simp [Printer.lacksText, text, token]

theorem preorder_mapHeads (change : NodeHead → NodeHead) (node : Node) :
    (node.mapHeads change).preorder = node.preorder.map (mapHeads change) := by
  induction node using Node.induction with
  | step node induction =>
      rw [preorder_eq, preorder_eq node, children_mapHeads, List.map_cons, List.flatMap_map,
        List.map_flatMap]
      exact congrArg _ (List.flatMap_congr induction)

theorem findSome?_congr {α β : Type} {first second : α → Option β} {list : List α}
    (same : ∀ value ∈ list, first value = second value) :
    list.findSome? first = list.findSome? second := by
  induction list with
  | nil => rfl
  | cons value rest induction =>
      rw [List.forall_mem_cons] at same
      rw [List.findSome?_cons, List.findSome?_cons, same.1, induction same.2]

theorem findSome?_fault?_hoist {node : Node} (formatted : node.Everywhere Formatted) :
    node.hoist.preorder.findSome? fault? = node.preorder.findSome? fault? := by
  have faults {tree : Node} (decided : tree.Everywhere Formatted) :
      tree.preorder.findSome? fault? = tree.unlaid.preorder.findSome? textFault? := by
    rw [unlaid, preorder_mapHeads, List.findSome?_map]
    apply findSome?_congr
    intro part member
    exact (fault?_of_formatted (decided part member)).trans (textFault?_unlaid part).symm
  rw [faults formatted, faults (everywhere_formatted_hoist formatted), unlaid_hoist]

/-- What was read is never at fault, so the first fault of all nodes is the first of those that are
printed part by part. -/
theorem findSome?_made {node : Node} (faithful : node.Everywhere Faithful) :
    node.made.findSome? fault? = node.preorder.findSome? fault? := by
  induction node using Node.induction with
  | step node induction =>
      cases origin : node.origin with
      | some origin =>
          have sound : node.preorder.findSome? fault? = none := by
            rw [List.findSome?_eq_none_iff]
            intro part member
            have explicit := (faithful.here.explicit origin).2.2 part member
            rw [fault?_of_formatted explicit.formatted, textFault?_eq_none_iff]
            exact explicit.spelled
          rw [sound, made_of_origin (Option.isSome_iff_exists.2 ⟨_, origin⟩), List.findSome?_nil]
      | none =>
          have among (nodes : List Node) (part : ∀ child ∈ nodes, child ∈ node.children) :
              (madeOfAll nodes).findSome? fault? = (nodes.flatMap preorder).findSome? fault? := by
            induction nodes with
            | nil => rfl
            | cons child rest later =>
                rw [List.forall_mem_cons] at part
                rw [madeOfAll, List.flatMap_cons, List.findSome?_append, List.findSome?_append,
                  induction child part.1 (faithful.child part.1), later part.2]
          rw [made_of_none origin, preorder_eq, List.findSome?_cons, List.findSome?_cons,
            among node.children fun _ member => member]

theorem shown_of_faithful {node : Node} (faithful : node.Everywhere Faithful) :
    node.shown = node.written := by
  induction node using Node.induction with
  | step node induction =>
      cases read : node.origin with
      | some origin => rw [shown_of_origin read, (faithful.here.explicit read).2.1]
      | none =>
          rcases node with ⟨head, children⟩
          have gone : head.origin = none := read
          have among (nodes : List Node) (part : ∀ child ∈ nodes, child ∈ children) :
              shownOfAll nodes = writtenOfAll nodes := by
            induction nodes with
            | nil => rfl
            | cons child rest later =>
                rw [List.forall_mem_cons] at part
                rw [shownOfAll, writtenOfAll, induction child part.1 (faithful.child part.1),
                  later part.2]
          rw [shown, written, gone, among children fun _ member => member]

theorem error_of_print {node : Node} (shares : node.Everywhere SharesOrigin) :
    PrintError.of? node.print = node.made.findSome? fault? := by
  rw [print, PrintError.of?_map, Printer.of?_layOut false shares]

theorem print_eq_error {node : Node} {error : PrintError} (faithful : node.Everywhere Faithful)
    (fault : node.preorder.findSome? fault? = some error) : node.print = .error error := by
  rw [← PrintError.of?_eq_some_iff, error_of_print (faithful.mono fun _ => Faithful.sharesOrigin),
    findSome?_made faithful, fault]

theorem print_of_sound {node : Node} (formatted : node.Everywhere Formatted)
    (faithful : node.Everywhere Faithful) (sound : node.preorder.findSome? fault? = none) :
    node.print = .ok node.written := by
  have explicit : node.Everywhere Explicit := by
    intro part member
    have spelled := List.findSome?_eq_none_iff.1 sound part member
    rw [fault?_of_formatted (formatted part member), textFault?_eq_none_iff] at spelled
    exact ⟨formatted part member, spelled⟩
  rw [print_of_explicit explicit, shown_of_faithful faithful]

/-- Hoisting makes no difference to a printer: the text is the same, and so is the error where a
token lacks its text. -/
theorem print_hoist {node : Node} (formatted : node.Everywhere Formatted)
    (apart : node.Everywhere TextOrChildren) (faithful : node.Everywhere Faithful) :
    node.hoist.print = node.print := by
  have formattedHoisted := everywhere_formatted_hoist formatted
  have faithfulHoisted := aboutOrigins_faithful.hoist faithful
  have faults := findSome?_fault?_hoist formatted
  cases first : node.preorder.findSome? fault? with
  | some error =>
      rw [first] at faults
      rw [print_eq_error faithful first, print_eq_error faithfulHoisted faults]
  | none =>
      rw [first] at faults
      rw [print_of_sound formatted faithful first,
        print_of_sound formattedHoisted faithfulHoisted faults, written_hoist apart]

/-! ## Hoisting again -/

theorem length_fronts_le {node : Node}
    (bareBranches : node.Everywhere fun part => part.children ≠ [] → part.leading = some .empty) :
    ∀ leaf ∈ node.leaves, leaf.fronts.length ≤ 1 := by
  induction node using Node.induction with
  | step node induction =>
      rcases node with ⟨head, children⟩
      cases children with
      | nil =>
          intro leaf member
          rw [List.mem_singleton.1 member, List.nil_append, ownFront]
          exact List.length_filter_le _ _
      | cons first rest =>
          have bareHead : head.leading = some .empty :=
            bareBranches.here (List.cons_ne_nil first rest)
          have nothing : ownFront head = [] := by
            rw [ownFront, bareHead]
            rfl
          intro leaf member
          rw [leaves, leavesBehind_cons, nothing, List.append_nil, List.mem_append,
            List.mem_flatMap] at member
          rcases member with inFirst | ⟨child, isChild, inChild⟩
          · exact induction first List.mem_cons_self
              (bareBranches.child List.mem_cons_self) leaf inFirst
          · have inside := List.mem_cons_of_mem first isChild
            exact induction child inside (bareBranches.child inside) leaf inChild

/-- Hoisting a tree whose formatting is decided and in which no node has both text and children
changes nothing but where formatting stands. It stands in the same order in front of each leaf,
and goes up from first children only. The text of the parts stays, and the tree prints as
before, also where printing fails, provided that what remembers where it was read has text for
all its tokens. If only tokens had formatting, no first child has any afterwards, and hoisting
again leaves the content as it is. -/
theorem hoist_raises_formatting {node : Node} (formatted : node.Everywhere Formatted)
    (apart : node.Everywhere TextOrChildren) :
    node.hoist.unlaid = node.unlaid ∧
    node.hoist.written = node.written ∧
    (node.Everywhere Faithful → node.hoist.print = node.print) ∧
    node.hoist.leaves = node.leaves ∧
    (∀ path before, node.descendant? path = some before →
      ∃ after, node.hoist.descendant? path = some after ∧
        Raised node node.hoist path before after) ∧
    (node.Everywhere (fun part => part.children ≠ [] → part.leading = some .empty) →
      node.hoist.Everywhere
        (fun part => ∀ first ∈ part.children.head?, first.leading = some .empty) ∧
      node.hoist.hoist.contentEq node.hoist) := by
  refine ⟨unlaid_hoist node, written_hoist apart, print_hoist formatted apart,
    leaves_hoist node, ?_, ?_⟩
  · intro path before found
    exact raised_hoist formatted found
  · intro bareBranches
    have decided := everywhere_formatted_hoist formatted
    have single := length_fronts_le bareBranches
    have lifted := everywhere_lifted_hoist single
    constructor
    · intro part member first isFirst
      apply leading_eq_empty _ (lifted part member first isFirst)
      exact ((decided.below member).child (List.mem_of_mem_head? isFirst)).here
    · rw [contentEq_iff_content]
      apply content_hoist_of_lifted decided lifted
      rwa [leaves_hoist]

/-- A declaration whose first token has the line break and the margin. -/
def declaration : Node :=
  (branch .variableDecl [(token .keyword "int").withLeading (.ofWhitespace "\n  "),
    (token .identifier "x").withLeading (.ofWhitespace " "),
    (token .punctuation ";").withLeading .empty]).withLeading .empty

theorem hoist_raises_formatting_of_declaration :
    ∃ tree, declaration.sealAgainst "\n  int x;" = .ok tree ∧
      tree.hoist.leading = some (.ofWhitespace "\n  ") ∧ tree.hoist.print = tree.print ∧
      tree.hoist.hoist.contentEq tree.hoist := by
  have evaluated : ((declaration.sealAgainst "\n  int x;").toOption.map fun tree =>
      (tree.preorder.all fun part =>
        part.leading.isSome && (part.text.isNone || part.children.isEmpty) &&
        (part.text.isSome || !part.kind.isToken) &&
        (part.children.isEmpty || part.leading = some .empty),
      tree.hoist.leading)) = some (true, some (.ofWhitespace "\n  ")) := by decide +kernel
  cases succeeded : declaration.sealAgainst "\n  int x;" with
  | error error =>
      rw [succeeded] at evaluated
      cases evaluated
  | ok tree =>
      rw [succeeded] at evaluated
      obtain ⟨checked, leading⟩ := Prod.mk.inj (Option.some.inj evaluated)
      simp only [List.all_eq_true, Bool.and_eq_true, Bool.or_eq_true, Option.isNone_iff_eq_none,
        List.isEmpty_iff, Bool.not_eq_true', decide_eq_true_eq] at checked
      have formatted : tree.Everywhere Formatted := fun part member => (checked part member).1.1.1
      have apart : tree.Everywhere TextOrChildren := by
        intro part member text
        rcases (checked part member).1.1.2 with none | none
        · simp [none] at text
        · exact none
      have spelled : tree.Everywhere Spelled := by
        intro part member isToken _
        rcases (checked part member).1.2 with text | noToken
        · exact text
        · simp [noToken] at isToken
      have bareBranches : tree.Everywhere fun part =>
          part.children ≠ [] → part.leading = some .empty :=
        fun part member some => (checked part member).2.resolve_left some
      have faithful := (sealAgainst_sealed succeeded).1.everywhere_faithful spelled
      have holds := hoist_raises_formatting formatted apart
      exact ⟨tree, rfl, leading, holds.2.2.1 faithful, (holds.2.2.2.2.2 bareBranches).2⟩

/-- A token without text is printed while it remembers its place in a source. Once its
formatting has gone up, and it has forgotten, it is not. -/
theorem hoist_reveals_missing_text :
    ∃ tree,
      ((branch .variableDecl [(branch .identifier []).withLeading (.ofWhitespace " ")]).withLeading
        .empty).sealAgainst " " = .ok tree ∧
      tree.Everywhere Formatted ∧ tree.Everywhere TextOrChildren ∧ tree.print = .ok " " ∧
      tree.hoist.print = .error (.missingText .identifier .unnumbered) := by
  let textless : Node :=
    (branch .variableDecl [(branch .identifier []).withLeading (.ofWhitespace " ")]).withLeading
      .empty
  have evaluated : ((textless.sealAgainst " ").toOption.map fun tree =>
      (tree.preorder.all fun part => part.leading.isSome && part.text.isNone,
        tree.hoist.made.findSome? fault?)) =
      some (true, some (.missingText .identifier .unnumbered)) := by decide
  cases succeeded : textless.sealAgainst " " with
  | error error =>
      rw [succeeded] at evaluated
      cases evaluated
  | ok tree =>
      rw [succeeded] at evaluated
      simp only [Except.toOption, Option.map_some, Option.some.injEq,
        Prod.mk.injEq, List.all_eq_true, Bool.and_eq_true, Option.isNone_iff_eq_none] at evaluated
      obtain ⟨checked, failed⟩ := evaluated
      obtain ⟨lies, same⟩ := sealAgainst_sealed succeeded
      obtain ⟨origin, read, -, -, -, textEqual⟩ := lies.exists_origin
      have spells : tree.written = " " := by
        rw [← written_withoutOrigins, same, written_withoutOrigins]
        decide
      have shares : tree.Everywhere SharesOrigin := by
        intro part member _ child isChild
        have below := mem_preorder.2 (.inr ⟨child, isChild, child.self_mem_preorder⟩)
        obtain ⟨_, _, here⟩ := lies.everywhere child (mem_preorder_trans below member)
        obtain ⟨origin, remembers, -⟩ := here.exists_origin
        rw [remembers]
        rfl
      refine ⟨tree, rfl, fun part member => (checked part member).1, ?_, ?_, ?_⟩
      · intro part member text
        simp [(checked part member).2] at text
      · rw [print_of_origin read, textEqual, spells]
      · rw [← PrintError.of?_eq_some_iff,
          error_of_print (aboutOrigins_sharesOrigin.hoist shares), failed]

end Node

end Verbatim
