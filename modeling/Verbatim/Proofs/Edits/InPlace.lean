import Verbatim.Proofs.Edits.Building
import Verbatim.Proofs.Edits.Heads
import Verbatim.Proofs.Java.Spelling
import Verbatim.Proofs.Printing.Laying

/-! Trees after an edit of heads. Every node stands where it stood; the nodes on the way to a
head that is edited are made anew, and everything else is the very node it was. -/

namespace Verbatim

namespace HeadEdit

open Node

variable (edit : HeadEdit)

/-- There is something to edit in the tree. -/
def touches (node : Node) : Bool := node.preorder.any fun part => edit.concerns part.toNodeHead

mutual

/-- The tree with its heads edited. What has nothing to be edited in it is kept as it is. -/
def edited : Node → Node
  | ⟨head, children⟩ =>
    if edit.touches ⟨head, children⟩ then ⟨{ edit.head head with origin := none },
      editedAll children⟩
    else ⟨head, children⟩

def editedAll : List Node → List Node
  | [] => []
  | node :: rest => edited node :: editedAll rest

end

theorem editedAll_eq_map (nodes : List Node) : edit.editedAll nodes = nodes.map edit.edited := by
  induction nodes with
  | nil => rfl
  | cons node rest induction => rw [editedAll, induction, List.map_cons]

theorem edited_eq (node : Node) : edit.edited node =
    if edit.touches node then
      ⟨{ edit.head node.toNodeHead with origin := none }, node.children.map edit.edited⟩
    else node := by
  cases node
  rw [edited, editedAll_eq_map]

variable {edit} {node : Node}

theorem edited_of_not_touches (spared : edit.touches node = false) : edit.edited node = node := by
  rw [edited_eq, spared, if_neg Bool.false_ne_true]

theorem touches_iff : edit.touches node = true ↔
    edit.concerns node.toNodeHead = true ∨ ∃ child ∈ node.children, edit.touches child = true := by
  simp only [touches, List.any_eq_true]
  constructor
  · rintro ⟨part, member, concerned⟩
    rcases mem_preorder.1 member with rfl | ⟨child, isChild, below⟩
    · exact .inl concerned
    · exact .inr ⟨child, isChild, part, below, concerned⟩
  · rintro (concerned | ⟨child, isChild, part, below, concerned⟩)
    · exact ⟨node, node.self_mem_preorder, concerned⟩
    · exact ⟨part, mem_preorder.2 (.inr ⟨child, isChild, below⟩), concerned⟩

theorem touches_eq_false_iff : edit.touches node = false ↔
    edit.concerns node.toNodeHead = false ∧ ∀ child ∈ node.children,
    edit.touches child = false := by
  rw [← Bool.not_eq_true, touches_iff, not_or, Bool.not_eq_true, not_exists]
  simp only [not_and, Bool.not_eq_true]

theorem head_of_not_touches (spared : edit.touches node = false) :
    edit.head node.toNodeHead = node.toNodeHead := by
  rw [head, (touches_eq_false_iff.1 spared).1, if_neg Bool.false_ne_true]

theorem children_edited (node : Node) : (edit.edited node).children =
    node.children.map edit.edited := by
  rw [edited_eq]
  split
  next => rfl
  next spared =>
    rw [Bool.not_eq_true, touches_eq_false_iff] at spared
    rw [List.map_congr_left fun child member => edited_of_not_touches (spared.2 child member),
      List.map_id']

theorem toNodeHead_edited (node : Node) :
    ({ (edit.edited node).toNodeHead with origin := none } : NodeHead) =
      { edit.head node.toNodeHead with origin := none } := by
  rw [edited_eq]
  split
  next => rfl
  next spared => rw [head_of_not_touches (Bool.not_eq_true _ ▸ spared)]

theorem descendant?_edited (node : Node) (path : List Nat) :
    (edit.edited node).descendant? path = (node.descendant? path).map edit.edited := by
  induction path generalizing node with
  | nil => rfl
  | cons place path induction =>
      rw [descendant?, descendant?, children_edited, List.getElem?_map,
        Option.bind_map, Option.map_bind]
      exact Option.bind_congr fun child _ => induction child

theorem preorder_edited (node : Node) : (edit.edited node).preorder =
    node.preorder.map edit.edited := by
  induction node using Node.induction with
  | step node induction =>
      rw [preorder_eq, preorder_eq node, children_edited, List.map_cons,
        List.map_flatMap, List.flatMap_map]
      exact congrArg (List.cons _) (List.flatMap_congr induction)

theorem withoutOrigins_edited (node : Node) : (edit.edited node).withoutOrigins =
    node.mapHeads fun head => { edit.head head with origin := none } := by
  induction node using Node.induction with
  | step node induction =>
      rw [withoutOrigins_eq, children_edited, toNodeHead_edited, List.map_map]
      rcases node with ⟨head, children⟩
      rw [mapHeads_mk, Node.mk.injEq]
      exact ⟨rfl, List.map_congr_left induction⟩

theorem content_edited (node : Node) :
    (edit.edited node).content = node.mapHeads (headContent ∘ edit.head) := by
  rw [← content_withoutOrigins, withoutOrigins_edited, content_eq_mapHeads, mapHeads_mapHeads]
  rfl

theorem contentEq_edited
    (shows : ∀ head, edit.concerns head = true → headContent (edit.change head) ≠ headContent head)
    (touched : edit.touches node = true) : (edit.edited node).contentEq node = false := by
  rw [← Bool.not_eq_true, contentEq_iff_content, content_edited, content_eq_mapHeads]
  intro same
  rcases List.any_eq_true.1 touched with ⟨part, inside, concerned⟩
  have head : headContent (edit.head part.toNodeHead) = headContent part.toNodeHead :=
    heads_of_mapHeads_eq same part inside
  rw [HeadEdit.head, if_pos concerned] at head
  exact shows _ concerned head

/-! ## The walk -/

/-- A walk makes the edited tree, if there is anything to edit. -/
theorem become_eq (forgets : ∀ head, edit.change head = { edit.change head with origin := none })
    {depth : Nat}
    (fit : node.height ≤ depth) (parent : Option Kind) :
    Look.become edit.looks depth parent node =
      if edit.touches node then some (edit.edited node) else none := by
  induction depth generalizing node parent with
  | zero => exact absurd node.height_pos (Nat.not_lt.2 fit)
  | succ depth induction =>
      have below : ∀ child ∈ node.children, ∀ parent, Look.become edit.looks depth parent child =
          if edit.touches child then some (edit.edited child) else none :=
        fun child member parent => induction (Nat.le_of_lt_succ
          (Nat.lt_of_lt_of_le (height_lt_of_mem member) fit)) parent
      have changes : (node.children.any fun child => (Look.become edit.looks depth
          (some (edit.head node.toNodeHead).kind) child).isSome) =
            node.children.any edit.touches := by
        refine Bool.eq_iff_iff.2 ?_
        simp only [List.any_eq_true]
        refine exists_congr fun child => and_congr_right fun member => ?_
        rw [below child member]
        cases edit.touches child <;> simp
      have children : (node.children.map fun child => (Look.become edit.looks depth
          (some (edit.head node.toNodeHead).kind) child).getD child) =
            node.children.map edit.edited := by
        refine List.map_congr_left fun child member => ?_
        rw [below child member]
        split
        next => rfl
        next spared => exact (edited_of_not_touches (Bool.not_eq_true _ ▸ spared)).symm
      rw [Look.become, edit.getD_changed]
      simp only [show (edit.looks parent node).descends = true from rfl,
        Bool.true_and, changes, children]
      cases inside : node.children.any edit.touches with
      | true =>
          have touched := touches_iff.2 (.inr (List.any_eq_true.1 inside))
          rw [if_pos rfl, if_pos touched, edited_eq, if_pos touched]
          rfl
      | false =>
          -- nothing is made anew on account of the children
          have spared := List.any_eq_false.1 inside
          have same : node.children.map edit.edited = node.children := by
            rw [List.map_congr_left fun child member =>
              edited_of_not_touches (Bool.not_eq_true _ ▸ spared child member), List.map_id']
          rw [if_neg Bool.false_ne_true, looks]
          cases concerned : edit.concerns node.toNodeHead with
          | true =>
              have touched := touches_iff.2 (.inl concerned)
              rw [if_pos rfl, if_pos touched, edited_eq, if_pos touched,
                same, head, if_pos concerned]
              exact congrArg (fun head => some (Node.mk head node.children))
                (forgets node.toNodeHead)
          | false =>
              have nothing := touches_eq_false_iff.2
                ⟨concerned, fun child member => Bool.not_eq_true _ ▸ spared child member⟩
              rw [if_neg Bool.false_ne_true, nothing, if_neg Bool.false_ne_true]

theorem walk_edits {visitor : Visitor} (decides : visitor.Decides edit.looks)
    (forgets : ∀ head, edit.change head = { edit.change head with origin := none })
    {limits : WalkLimits} (time : limits.expired = false) (root : Node) {session : Session}
    (going : session.cancelled = false) :
    walk visitor limits root session =
      (.ok (if edit.touches root then some (edit.edited root) else none),
        { session with board := .empty }) := by
  rw [walk_of_decides decides time root going, become_eq forgets (Nat.le_add_right ..)]

theorem getD_edited (node : Node) :
    (if edit.touches node then some (edit.edited node) else none).getD node = edit.edited node := by
  split
  next => rfl
  next spared => exact (edited_of_not_touches (Bool.not_eq_true _ ▸ spared)).symm

/-! ## Files -/

theorem reachable_edited {visitor : Visitor} (decides : visitor.Decides edit.looks)
    (builds : visitor.Builds)
    (forgets : ∀ head, edit.change head = { edit.change head with origin := none })
    (reachable : Reachable node) : Reachable (edit.edited node) := by
  have walked := @walk_edits edit visitor decides forgets .none rfl node (.start 0 false) rfl
  cases touched : edit.touches node with
  | true =>
      rw [touched, if_pos rfl] at walked
      exact builds.reachable reachable (congrArg Prod.fst walked)
  | false =>
      rw [edited_of_not_touches touched]
      exact reachable

/-- What is left of a file leaves nothing to the layout, and is printed as the file with its heads
edited. -/
theorem print_edited {visitor : Visitor} (decides : visitor.Decides edit.looks)
    (builds : visitor.Builds) (settles : edit.Settles)
    (forgets : ∀ head, edit.change head = { edit.change head with origin := none })
    (keeps : ∀ head, (edit.head head).kind = head.kind ∧
      (edit.head head).text.isSome = head.text.isSome ∧ (edit.head head).leading = head.leading)
    {text : String} {read : Node} (parsed : Java.parse text = .ok read) (first : Nat) :
    (edit.edited (read.number first).1).print = .ok (read.mapHeads edit.head).written := by
  have reachable := reachable_edited decides builds forgets (.number first (.java parsed))
  have content : (edit.edited (read.number first).1).content =
      (read.mapHeads edit.head).content := by
    rw [content_edited, content_eq_mapHeads (read.mapHeads _), mapHeads_mapHeads]
    exact (settles.mapHeads_content _).symm.trans ((congrArg _ (content_number read first)).trans
      (settles.mapHeads_content read))
  exact (prints_of_content (reachable.everywhere_faithful fun _ absent => absent.elim)
    ((everywhere_explicit_mapHeads keeps read).2 (Java.explicit_of_parse parsed)) content).1

end HeadEdit

end Verbatim
