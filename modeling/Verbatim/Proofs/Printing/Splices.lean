import Mathlib.Data.List.Forall2
import Verbatim.Proofs.Languages
import Verbatim.Proofs.Printing.Replacements
import Verbatim.Proofs.Tree.Provenance

/-! Putting other nodes in the place of some that were read. The text of the new tree is the text
that was read, with the bytes of each replaced node exchanged for what stands in its place. -/

namespace Verbatim

open Text (StandsAt)
open Node (Sealed SealedInTurn Regular Explicit Everywhere shown shownOfAll)

/-! ## Ranges of a text -/

/-- The text between two bytes. -/
def between? (source : String) (start stop : Nat) : Option String :=
  if ordered : start ≤ stop then (Span.mk start stop ordered).slice? source else none

/-- What is left of a text from a byte on, with some ranges, given from left to right, exchanged for
other texts. -/
def replaceRanges? (source : String) (start : Nat) : List (Span × String) → Option String
  | [] => between? source start source.utf8ByteSize
  | (span, text) :: rest => do
    let kept ← between? source start span.start
    let behind ← replaceRanges? source span.stop rest
    return kept ++ text ++ behind

theorem between?_of_standsAt {source piece : String} {start stop : Nat}
    (here : StandsAt source start stop piece) : between? source start stop = some piece := by
  rw [between?, dif_pos here.start_le_stop]
  exact StandsAt.slice? here

/-- Between two bytes of the source some ranges are exchanged for other texts. -/
inductive Rewritten (source : String) : Nat → Nat → List (Span × String) → String → Prop
  | kept {start stop : Nat} {text : String} :
      StandsAt source start stop text → Rewritten source start stop [] text
  | replaced {start stop : Nat} {span : Span} {front text behind : String}
      {rest : List (Span × String)} :
      StandsAt source start span.start front → Rewritten source span.stop stop rest behind →
      Rewritten source start stop ((span, text) :: rest) (front ++ text ++ behind)

namespace Rewritten

variable {source text other : String} {start middle stop : Nat}
  {ranges others : List (Span × String)}

theorem prepend (here : StandsAt source start middle text)
    (there : Rewritten source middle stop ranges other) :
    Rewritten source start stop ranges (text ++ other) := by
  cases there with
  | kept stands => exact .kept (here.append stands)
  | replaced stands behind =>
      rw [String.append_assoc, ← String.append_assoc, ← String.append_assoc]
      exact .replaced (here.append stands) behind

theorem append (here : Rewritten source start middle ranges text)
    (there : Rewritten source middle stop others other) :
    Rewritten source start stop (ranges ++ others) (text ++ other) := by
  induction here with
  | kept stands => exact prepend stands there
  | replaced stands _ induction =>
      rw [String.append_assoc]
      exact .replaced stands (induction there)

theorem replaceRanges? (rewritten : Rewritten source start stop ranges text)
    (toEnd : stop = source.utf8ByteSize) :
    Verbatim.replaceRanges? source start ranges = some text := by
  induction rewritten with
  | kept stands =>
      subst toEnd
      rw [Verbatim.replaceRanges?, between?_of_standsAt stands]
  | replaced stands _ induction =>
      rw [Verbatim.replaceRanges?, between?_of_standsAt stands, induction toEnd]
      rfl

end Rewritten

/-! ## Spliced trees -/

namespace Node

def descendantAmong? (nodes : List Node) : List Nat → Option Node
  | [] => none
  | place :: path => (nodes[place]?).bind (·.descendant? path)

theorem descendant?_of_ne_nil {node : Node} {path : List Nat} (nonempty : path ≠ []) :
    node.descendant? path = descendantAmong? node.children path := by
  cases path with
  | nil => exact absurd rfl nonempty
  | cons place more => rfl

theorem descendantAmong?_fromBehind (first : Node) (rest : List Node) (replacement : Replacement) :
    descendantAmong? (first :: rest) replacement.fromBehind.path =
      descendantAmong? rest replacement.path := by
  rcases replacement with ⟨_ | ⟨place, path⟩, nodes⟩ <;> rfl

def IsRange (found : Option Node) (nodes : List Node) (range : Span × String) : Prop :=
  ∃ node origin, found = some node ∧ node.origin = some origin ∧
    range = (origin.span, shownOfAll nodes)

theorem shown_withChildren {head : NodeHead} {children others : List Node} :
    ((Node.mk head children).withChildren others).shown =
      (head.leading.getD .empty).text ++ head.text.getD "" ++ shownOfAll others ++
        head.trailing.text := by
  rw [withChildren, shown]

theorem Sealed.shown {source : String} {start stop : Nat} {node : Node}
    (lies : node.Sealed source start stop) : node.shown = node.written := by
  rcases lies.exists_origin with ⟨origin, read, -, -, -, text⟩
  rw [shown_of_origin read, text]

theorem Sealed.rewritten_whole {source : String} {start stop : Nat} {node : Node}
    (lies : node.Sealed source start stop) (nodes : List Node) :
    ∃ range, IsRange (some node) nodes range ∧
      Rewritten source start stop [range] (shownOfAll nodes) := by
  rcases lies.exists_origin with ⟨origin, read, -, spanStart, spanStop, -⟩
  have before : StandsAt source start origin.span.start "" := by
    rw [spanStart]
    exact lies.standsAt.empty_at_start
  have behind : StandsAt source origin.span.stop stop "" := by
    rw [spanStop]
    exact lies.standsAt.empty_at_stop
  have rewritten : Rewritten source start stop [(origin.span, shownOfAll nodes)]
      ("" ++ shownOfAll nodes ++ "") := .replaced before (.kept behind)
  rw [String.empty_append, String.append_empty] at rewritten
  exact ⟨_, ⟨node, origin, rfl, read, rfl⟩, rewritten⟩

mutual

theorem splice_rewritten {source : String} : ∀ {start stop : Nat} (node : Node)
    {replacements : List Replacement}, node.Sealed source start stop →
    Replacement.Ordered replacements → (∀ replacement ∈ replacements,
      replacement.path ≠ [] ∧ (node.descendant? replacement.path).isSome) →
    ∃ ranges, List.Forall₂ (fun replacement => IsRange (node.descendant? replacement.path)
        replacement.nodes) replacements ranges ∧
      Rewritten source start stop ranges (node.splice replacements).shown
  | start, stop, ⟨head, children⟩, replacements, lies, ordered, inside => by
      rw [splice]
      cases replacements with
      | nil =>
          refine ⟨[], .nil, .kept ?_⟩
          rw [List.isEmpty_nil, if_pos rfl, lies.shown]
          exact lies.standsAt
      | cons first rest =>
          have below : ∀ replacement ∈ first :: rest, replacement.path ≠ [] ∧
              (descendantAmong? children replacement.path).isSome := by
            intro replacement member
            rcases inside replacement member with ⟨nonempty, found⟩
            rw [descendant?_of_ne_nil nonempty] at found
            exact ⟨nonempty, found⟩
          rcases lies with ⟨leading, span, position, inner, behind, leadingEqual, -, -, -, front,
            childrenLie, back⟩
          rcases spliceAll_rewritten children childrenLie ordered
            (fun replacement member => (below replacement member).2) with ⟨ranges, found, rewritten⟩
          refine ⟨ranges, ?_, ?_⟩
          · exact ((List.forall₂_and_left _ _).2
              ⟨fun replacement member => (below replacement member).1, found⟩).imp
              fun replacement range both => by
                rw [descendant?_of_ne_nil both.1]
                exact both.2
          · rw [List.isEmpty_cons, if_neg (by decide), shown_withChildren, leadingEqual]
            have whole := (Rewritten.prepend front rewritten).append (.kept back)
            rw [List.append_nil] at whole
            exact whole

/-- Splicing into siblings rewrites their bytes. -/
theorem spliceAll_rewritten {source : String} : ∀ {start stop : Nat} (nodes : List Node)
    {replacements : List Replacement}, SealedInTurn source start stop nodes →
    Replacement.Ordered replacements → (∀ replacement ∈ replacements,
      (descendantAmong? nodes replacement.path).isSome) →
    ∃ ranges, List.Forall₂ (fun replacement => IsRange (descendantAmong? nodes replacement.path)
        replacement.nodes) replacements ranges ∧
      Rewritten source start stop ranges (shownOfAll (spliceAll replacements nodes))
  | start, stop, [], replacements, lie, ordered, inside => by
      cases replacements with
      | nil => exact ⟨[], .nil, .kept lie⟩
      | cons first rest =>
          have found := inside first List.mem_cons_self
          rcases first with ⟨_ | ⟨place, path⟩, nodes⟩ <;> cases found
  | start, stop, node :: rest, replacements, lie, ordered, inside => by
      rcases lie with ⟨middle, hereLies, restLie⟩
      have below : ∀ replacement ∈ replacements, replacement.path ≠ [] := by
        intro replacement member absent
        have found := inside replacement member
        rw [absent] at found
        cases found
      have insideHere : ∀ replacement ∈ replacements.filterMap Replacement.inFirst,
          (node.descendant? replacement.path).isSome := Replacement.forall_inFirst inside
      have insideRest : ∀ replacement ∈ replacements.filterMap Replacement.behindFirst,
          (descendantAmong? rest replacement.path).isSome := by
        intro replacement member
        rw [← descendantAmong?_fromBehind node]
        exact Replacement.forall_behindFirst inside replacement member
      rcases spliceAll_rewritten rest restLie ordered.behindFirst insideRest with
        ⟨restRanges, restFound, restRewritten⟩
      -- the first sibling is replaced as a whole, or else only below
      have here : ∃ ranges, List.Forall₂ (fun replacement =>
            IsRange (node.descendant? replacement.path) replacement.nodes)
          (replacements.filterMap Replacement.inFirst) ranges ∧
          Rewritten source start middle ranges (shownOfAll
            (match (replacements.filterMap Replacement.inFirst).find? (·.path.isEmpty) with
              | some replacement => replacement.nodes
              | none => [node.splice (replacements.filterMap Replacement.inFirst)])) := by
        cases whole : (replacements.filterMap Replacement.inFirst).find? (·.path.isEmpty) with
        | none =>
            have partly : ∀ replacement ∈ replacements.filterMap Replacement.inFirst,
                replacement.path ≠ [] := by
              intro replacement member empty
              have notWhole := List.find?_eq_none.1 whole replacement member
              rw [empty] at notWhole
              exact notWhole rfl
            rcases splice_rewritten node hereLies ordered.inFirst
              (fun replacement member => ⟨partly replacement member, insideHere replacement member⟩)
              with ⟨ranges, found, rewritten⟩
            refine ⟨ranges, found, ?_⟩
            rw [shownOfAll, shownOfAll, String.append_empty]
            exact rewritten
        | some replacement =>
            have empty : replacement.path = [] := by simpa using List.find?_some whole
            rw [ordered.inFirst.apart.eq_singleton (List.mem_of_find?_eq_some whole) empty]
            rcases hereLies.rewritten_whole replacement.nodes with ⟨range, isRange, rewritten⟩
            refine ⟨[range], .cons ?_ .nil, rewritten⟩
            rw [empty]
            exact isRange
      rcases here with ⟨hereRanges, hereFound, hereRewritten⟩
      refine ⟨hereRanges ++ restRanges, ?_, ?_⟩
      · rw [ordered.split below]
        refine List.rel_append ?_ ?_
        · exact List.forall₂_map_left_iff.2 hereFound
        · refine List.forall₂_map_left_iff.2 (restFound.imp fun replacement range isRange => ?_)
          rw [descendantAmong?_fromBehind, replacement.nodes_fromBehind]
          exact isRange
      · rw [spliceAll, shownOfAll_append]
        exact hereRewritten.append restRewritten

end

/-- The bytes of the node that is replaced, and what the nodes in its place print as. -/
def rangeOf? (tree : Node) (replacement : Replacement) : Option (Span × String) := do
  let node ← tree.descendant? replacement.path
  let origin ← node.origin
  let pieces ← (replacement.nodes.mapM print).toOption
  return (origin.span, String.join pieces)

/-- A node that may be put somewhere: its formatting is explicit, or it has an origin, and a token
has its text. Sealing, which alone gives origins, gives none to nodes without formatting. -/
structure Ready (node : Node) : Prop where
  decided : node.leading.isSome ∨ node.origin.isSome
  formattedWhenRead : node.origin.isSome → node.leading.isSome
  spelled : node.Spelled

theorem Faithful.ready {node : Node} (faithful : node.Faithful)
    (decided : node.leading.isSome ∨ node.origin.isSome) (spelled : node.Spelled) :
    node.Ready := by
  refine ⟨decided, ?_, spelled⟩
  intro read
  rcases faithful read with ⟨_, _, _, lies, -⟩
  exact lies.formatted

theorem Ready.explicit {node : Node} (ready : node.Ready) : node.Explicit :=
  ⟨ready.decided.elim id ready.formattedWhenRead, ready.spelled⟩

mutual

theorem splice_explicit : ∀ (node : Node) {replacements : List Replacement},
    node.Everywhere Explicit → node.Everywhere Regular →
    (∀ replacement ∈ replacements, ∀ new ∈ replacement.nodes, new.Everywhere Explicit) →
    (node.splice replacements).Everywhere Explicit
  | ⟨head, children⟩, replacements, explicit, regular, new => by
      rw [splice]
      split
      · exact explicit
      · rw [everywhere_iff]
        refine ⟨⟨explicit.here.formatted, fun isToken _ => ?_⟩, ?_⟩
        · rcases regular.here.leafOrBranch with ⟨-, text, -⟩ | ⟨notToken, -, -⟩
          · exact text
          · have kind : head.kind.isToken = true := isToken
            rw [notToken] at kind
            cases kind
        · exact spliceAll_explicit children (fun child => explicit.child)
            (fun child => regular.child) new

theorem spliceAll_explicit : ∀ (nodes : List Node) {replacements : List Replacement},
    (∀ node ∈ nodes, node.Everywhere Explicit) → (∀ node ∈ nodes, node.Everywhere Regular) →
    (∀ replacement ∈ replacements, ∀ new ∈ replacement.nodes, new.Everywhere Explicit) →
    ∀ node ∈ spliceAll replacements nodes, node.Everywhere Explicit
  | [], _, _, _, _ => fun node member => absurd member List.not_mem_nil
  | first :: rest, replacements, explicit, regular, new => by
      have newHere : ∀ replacement ∈ replacements.filterMap Replacement.inFirst,
          ∀ new ∈ replacement.nodes, new.Everywhere Explicit := Replacement.forall_inFirst new
      have newBehind : ∀ replacement ∈ replacements.filterMap Replacement.behindFirst,
          ∀ new ∈ replacement.nodes, new.Everywhere Explicit := by
        intro replacement member
        rw [← replacement.nodes_fromBehind]
        exact Replacement.forall_behindFirst new replacement member
      intro node member
      rw [spliceAll] at member
      rcases List.mem_append.1 member with here | behind
      · split at here
        next replacement found =>
          exact newHere replacement (List.mem_of_find?_eq_some found) node here
        next =>
          rw [List.mem_singleton.1 here]
          exact splice_explicit first (explicit first List.mem_cons_self)
            (regular first List.mem_cons_self) newHere
      · exact spliceAll_explicit rest
          (fun other inRest => explicit other (List.mem_cons_of_mem _ inRest))
          (fun other inRest => regular other (List.mem_cons_of_mem _ inRest)) newBehind node behind

end

theorem mapM_print_of_explicit {nodes : List Node}
    (explicit : ∀ node ∈ nodes, node.Everywhere Explicit) :
    nodes.mapM print = .ok (nodes.map shown) := by
  induction nodes with
  | nil => rfl
  | cons first rest induction =>
      rw [List.mapM_cons, print_of_explicit (explicit first List.mem_cons_self),
        induction fun node member => explicit node (List.mem_cons_of_mem _ member)]
      rfl

theorem join_map_shown (nodes : List Node) : String.join (nodes.map shown) = shownOfAll nodes := by
  induction nodes with
  | nil => rfl
  | cons first rest induction => rw [List.map_cons, String.join_cons, induction, shownOfAll]

theorem ReadFrom.print_splice_of_ordered {text : String} {tree : Node} (read : tree.ReadFrom text)
    {replacements : List Replacement} (ordered : Replacement.Ordered replacements)
    (inside : ∀ replacement ∈ replacements, replacement.path ≠ [] ∧
      (tree.descendant? replacement.path).isSome)
    (explicit : ∀ replacement ∈ replacements, ∀ new ∈ replacement.nodes,
      new.Everywhere Explicit) :
    ∃ ranges out, replacements.mapM tree.rangeOf? = some ranges ∧
      replaceRanges? text 0 ranges = some out ∧ (tree.splice replacements).print = .ok out := by
  rcases splice_rewritten tree read.lies ordered inside with ⟨ranges, found, rewritten⟩
  have treeExplicit : tree.Everywhere Explicit := by
    intro below member
    rcases read.lies.everywhere below member with ⟨_, _, lies⟩
    exact ⟨lies.formatted, (read.regular below member).spelled⟩
  refine ⟨ranges, _, ?_, rewritten.replaceRanges? rfl,
    print_of_explicit (splice_explicit tree treeExplicit read.regular explicit)⟩
  clear ordered inside rewritten
  induction found with
  | nil => rfl
  | cons isRange _ induction =>
      rcases isRange with ⟨node, origin, nodeFound, originFound, rfl⟩
      rw [List.mapM_cons, induction fun replacement member =>
        explicit replacement (List.mem_cons_of_mem _ member)]
      rw [rangeOf?, nodeFound]
      simp [originFound, mapM_print_of_explicit (explicit _ List.mem_cons_self), join_map_shown,
        Except.toOption]

theorem ReadFrom.splice_prints {text : String} {tree : Node} (readFrom : tree.ReadFrom text)
    {replacements : List Replacement} (apart : Replacement.Apart replacements)
    (inside : ∀ replacement ∈ replacements, replacement.path ≠ [] ∧
      (tree.descendant? replacement.path).isSome)
    (ready : ∀ replacement ∈ replacements, ∀ new ∈ replacement.nodes, new.Everywhere Ready) :
    ∃ sorted ranges out, sorted.Perm replacements ∧ Replacement.Ordered sorted ∧
      sorted.mapM tree.rangeOf? = some ranges ∧ replaceRanges? text 0 ranges = some out ∧
      (tree.splice replacements).print = .ok out := by
  rcases apart.exists_ordered with ⟨sorted, permutation, ordered⟩
  rcases readFrom.print_splice_of_ordered ordered
    (fun replacement member => inside replacement (permutation.mem_iff.1 member))
    (fun replacement member new newMember =>
      (ready replacement (permutation.mem_iff.1 member) new newMember).mono
        fun _ ready => ready.explicit) with ⟨ranges, out, found, replaced, printed⟩
  refine ⟨sorted, ranges, out, permutation, ordered, found, replaced, ?_⟩
  rw [splice_perm tree permutation.symm apart]
  exact printed

end Node

/-- In a tree that was read, any nodes below the root, none of which contains another, are replaced
by any lists of nodes that leave nothing to the layout, and the nodes above them are rebuilt. Then
the new tree can be printed, and it prints as the text that was read with the bytes of each replaced
node, taken from left to right, exchanged for the prints of the nodes in its place. -/
theorem print_splice {read : String → Except ParseError Node}
    (reader : read = Java.parse ∨ read = Language.readPlainText) {text : String} {tree : Node}
    (wasRead : read text = .ok tree) {replacements : List Replacement}
    (apart : Replacement.Apart replacements)
    (inside : ∀ replacement ∈ replacements, replacement.path ≠ [] ∧
      (tree.descendant? replacement.path).isSome)
    (ready : ∀ replacement ∈ replacements, ∀ new ∈ replacement.nodes,
      new.Everywhere Node.Ready) :
    ∃ sorted ranges out, sorted.Perm replacements ∧ Replacement.Ordered sorted ∧
      sorted.mapM tree.rangeOf? = some ranges ∧ replaceRanges? text 0 ranges = some out ∧
      (tree.splice replacements).print = .ok out := by
  have readFrom : tree.ReadFrom text := by
    rcases reader with rfl | rfl
    · exact Java.parse_readFrom wasRead
    · exact Language.readPlainText_readFrom wasRead
  exact readFrom.splice_prints apart inside ready

/-- In a class another name is put in the place of the name, and nothing in that of the member. -/
theorem print_splice_of_class :
    ∃ tree replacements sorted ranges out,
      replacements = [(⟨[0, 2, 1], []⟩ : Replacement),
        ⟨[0, 1], [(Node.token .identifier "B").withLeading (.ofWhitespace "  ")]⟩] ∧
      Java.parse "class A \x7b int x; \x7d" = .ok tree ∧
      sorted.Perm replacements ∧ Replacement.Ordered sorted ∧
      sorted.mapM tree.rangeOf? = some ranges ∧
      replaceRanges? "class A \x7b int x; \x7d" 0 ranges = some out ∧
      (tree.splice replacements).print = .ok out := by
  let replacements : List Replacement := [⟨[0, 2, 1], []⟩,
    ⟨[0, 1], [(Node.token .identifier "B").withLeading (.ofWhitespace "  ")]⟩]
  have apart : Replacement.Apart replacements := by
    rw [Replacement.Apart]
    decide
  have ready : ∀ replacement ∈ replacements, ∀ new ∈ replacement.nodes,
      new.Everywhere Node.Ready := by
    have name : ((Node.token .identifier "B").withLeading (.ofWhitespace "  ")).Everywhere
        Node.Ready :=
      Node.everywhere_iff.2 ⟨⟨.inl rfl, fun _ => rfl, fun _ _ => rfl⟩,
        fun child inside => absurd inside List.not_mem_nil⟩
    simpa [replacements] using name
  have evaluated : ((Java.parse "class A \x7b int x; \x7d").toOption.map fun tree =>
      ((tree.descendant? [0, 2, 1]).isSome, (tree.descendant? [0, 1]).isSome)) =
      some (true, true) := by decide +kernel
  cases parsed : Java.parse "class A \x7b int x; \x7d" with
  | error error =>
      rw [parsed] at evaluated
      cases evaluated
  | ok tree =>
      rw [parsed] at evaluated
      rcases Prod.mk.inj (Option.some.inj evaluated) with ⟨member, name⟩
      have inside : ∀ replacement ∈ replacements, replacement.path ≠ [] ∧
          (tree.descendant? replacement.path).isSome := by
        simp [replacements, member, name]
      rcases print_splice (.inl rfl) parsed apart inside ready with
        ⟨sorted, ranges, out, permutation, ordered, found, replaced, printed⟩
      exact ⟨tree, replacements, sorted, ranges, out, rfl, rfl, permutation, ordered, found,
        replaced, printed⟩

end Verbatim
