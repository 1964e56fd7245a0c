import Verbatim.Proofs.Tree.Hoisting

/-! The content of a tree: the tree without identities and origins. Two trees are told apart by
their content only, and what a tree looks like to a printer is all in its content. -/

namespace Verbatim.Node

theorem contentOfAll_eq_map (nodes : List Node) : contentOfAll nodes = nodes.map content := by
  induction nodes with
  | nil => rfl
  | cons first rest induction => rw [contentOfAll, induction, List.map_cons]

theorem content_mk (head : NodeHead) (children : List Node) :
    content ⟨head, children⟩ = ⟨headContent head, children.map content⟩ := by
  rw [content, contentOfAll_eq_map]

theorem content_eq (node : Node) :
    node.content = ⟨headContent node.toNodeHead, node.children.map content⟩ := by
  cases node
  rw [content_mk]

theorem content_eq_mapHeads (node : Node) : node.content = node.mapHeads headContent := by
  induction node using Node.induction with
  | step node induction =>
      rcases node with ⟨head, children⟩
      rw [content_mk, mapHeads_mk]
      exact congrArg (Node.mk _) (List.map_congr_left induction)

/-! ## Comparing -/

theorem contentEqAll_iff {first second : List Node}
    (each : ∀ node ∈ first, ∀ other : Node,
      node.contentEq other = true ↔ node.content = other.content) :
    contentEqAll first second = true ↔ first.map content = second.map content := by
  induction first generalizing second with
  | nil => cases second <;> simp [contentEqAll]
  | cons node rest induction =>
      cases second with
      | nil => simp [contentEqAll]
      | cons other others =>
          rw [contentEqAll, Bool.and_eq_true, each node List.mem_cons_self,
            induction fun node member => each node (List.mem_cons_of_mem _ member), List.map_cons,
            List.map_cons, List.cons.injEq]

theorem contentEq_iff_content {first second : Node} :
    first.contentEq second = true ↔ first.content = second.content := by
  induction first using Node.induction generalizing second with
  | step first induction =>
      rcases first with ⟨head, children⟩
      rcases second with ⟨other, others⟩
      rw [contentEq, Bool.and_eq_true, decide_eq_true_eq,
        contentEqAll_iff fun node member _ => induction node member, content_mk, content_mk,
        Node.mk.injEq]

theorem contentEq_equivalence : Equivalence fun first second : Node => first.contentEq second where
  refl _ := contentEq_iff_content.2 rfl
  symm same := contentEq_iff_content.2 (contentEq_iff_content.1 same).symm
  trans same next :=
    contentEq_iff_content.2 ((contentEq_iff_content.1 same).trans (contentEq_iff_content.1 next))

/-! ## What the content keeps -/

section

variable (node : Node)

@[simp] theorem kind_content : node.content.kind = node.kind := by
  cases node
  rfl

@[simp] theorem text_content : node.content.text = node.text := by
  cases node
  rfl

@[simp] theorem leading_content : node.content.leading = node.leading := by
  cases node
  rfl

@[simp] theorem children_content : node.content.children = node.children.map content := by
  cases node
  rw [content_mk]

@[simp] theorem is_content (kind : Kind) : node.content.is kind = node.is kind := by
  rw [is, is, kind_content]

@[simp] theorem isPunctuation_content (text : String) :
    node.content.isPunctuation text = node.isPunctuation text := by
  rw [isPunctuation, isPunctuation, is_content, text_content]

@[simp] theorem leadingOrEmpty_content : node.content.leadingOrEmpty = node.leadingOrEmpty := by
  rw [leadingOrEmpty, leadingOrEmpty, leading_content]

@[simp] theorem hasLeading_content : node.content.hasLeading = node.hasLeading := by
  rw [hasLeading, hasLeading, leadingOrEmpty_content]

@[simp] theorem tokensText_content : node.content.tokensText = node.tokensText := by
  rw [content_eq_mapHeads]
  apply tokensText_mapHeads
  exact fun _ => rfl

@[simp] theorem childrenOfKind_content (kind : Kind) :
    node.content.childrenOfKind kind = (node.childrenOfKind kind).map content := by
  rw [childrenOfKind, childrenOfKind, children_content, List.filter_map]
  simp only [Function.comp_def, is_content]

@[simp] theorem content_withoutIds : node.withoutIds.content = node.content := by
  rw [content_eq_mapHeads, content_eq_mapHeads, withoutIds, mapHeads_mapHeads]
  rfl

@[simp] theorem content_number (next : Nat) : (node.number next).1.content = node.content := by
  rw [← content_withoutIds, withoutIds_number, content_withoutIds]

@[simp] theorem content_withoutOrigins : node.withoutOrigins.content = node.content := by
  rw [content_eq_mapHeads, content_eq_mapHeads, withoutOrigins, mapHeads_mapHeads]
  rfl

@[simp] theorem bare_content : node.content.bare = node.bare := by
  rw [content_eq_mapHeads]
  exact mapHeads_mapHeads node

theorem content_withLeading (leading : Trivia) :
    (node.withLeading leading).content = node.content.withLeading leading := by
  cases node
  rfl

theorem content_withChildren (children : List Node) :
    (node.withChildren children).content = node.content.withChildren (children.map content) := by
  rcases node with ⟨head, _⟩
  rw [content_mk]
  exact content_mk { head with origin := none } children

end

/-! ## Hoisting -/

theorem content_takeLeading (head : NodeHead) (children : List Node) :
    (takeLeading head children).content =
      takeLeading (headContent head) (children.map content) := by
  cases children with
  | nil => rw [takeLeading, content_mk]; rfl
  | cons first rest =>
      have here : (Node.mk (headContent head) (first.content :: rest.map content)) =
          (Node.mk head (first :: rest)).content := by rw [content_mk, List.map_cons]
      rw [List.map_cons, takeLeading, takeLeading, here, hasLeading_content, hasLeading_content,
        leadingOrEmpty_content]
      split
      · rw [content_withLeading, content_withChildren, List.map_cons, content_withLeading]
      · rw [content_withChildren, List.map_cons]

theorem content_hoist (node : Node) : node.hoist.content = node.content.hoist := by
  induction node using Node.induction with
  | step node induction =>
      rcases node with ⟨head, children⟩
      rw [content_mk, hoist, hoist, content_takeLeading, hoistAll_eq_map, hoistAll_eq_map,
        List.map_map, List.map_map]
      exact congrArg (takeLeading _) (List.map_congr_left induction)

end Verbatim.Node
