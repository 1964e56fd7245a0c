import Mathlib.Data.List.Forall2
import Verbatim.Proofs.Edits.Clearing
import Verbatim.Proofs.Tree.Frames

/-! What remains of a tree when annotations are removed from it: all other nodes, in their
order. Each is the very node it was unless an annotation was removed below it, or it moves up to
the start of a declaration. -/

namespace Verbatim

open Node

namespace RemoveAnnotations

variable (edit : RemoveAnnotations)

mutual

/-- The nodes of a tree that are not removed with an annotation, in their order. -/
def remaining : Node → List Node
  | ⟨head, children⟩ => ⟨head, children⟩ :: remainingOfAll children

def remainingOfAll : List Node → List Node
  | [] => []
  | node :: rest =>
    if edit.removes node then remainingOfAll rest else remaining node ++ remainingOfAll rest

end

/-- In front of the part stood annotations, and nothing else, that are removed from the start of the
declaration. -/
structure Leads (declaration part : Node) : Prop where
  isDeclaration : declaration.kind.isDeclaration = true
  split : ∃ front rest, declaration.children = front ++ part :: rest ∧ front ≠ [] ∧
    ∀ node ∈ front, edit.removes node = true
  stays : edit.removes part = false

/-- The part moves up to the start of a declaration of the tree. -/
def MovesUp (tree part : Node) : Prop := ∃ declaration ∈ tree.preorder, edit.Leads declaration part

/-- What a part of the tree has become. -/
structure Remains (tree part new : Node) : Prop where
  id : new.id = part.id
  head : ({ new.toNodeHead with leading := part.leading, origin := none } : NodeHead) =
    { part.toNodeHead with origin := none }
  leading : ¬edit.MovesUp tree part → new.leading = part.leading
  same : ¬edit.MovesUp tree part → edit.Clear part → new = part

variable {edit}

theorem mem_remainingOfAll {part : Node} {nodes : List Node} : part ∈ edit.remainingOfAll nodes ↔
    ∃ node ∈ nodes, edit.removes node = false ∧ part ∈ edit.remaining node := by
  induction nodes with
  | nil => simp [remainingOfAll]
  | cons node rest induction =>
      rw [remainingOfAll, List.exists_mem_cons_iff, ← induction]
      cases edit.removes node <;> simp

theorem mem_remaining {part node : Node} : part ∈ edit.remaining node ↔ part = node ∨
    ∃ child ∈ node.children, edit.removes child = false ∧ part ∈ edit.remaining child := by
  cases node
  rw [remaining, List.mem_cons, mem_remainingOfAll]

theorem mem_preorder_of_mem_remaining {part node : Node} (remains : part ∈ edit.remaining node) :
    part ∈ node.preorder := by
  induction node using Node.induction with
  | step node induction =>
      rcases mem_remaining.1 remains with rfl | ⟨child, isChild, -, below⟩
      · exact part.self_mem_preorder
      · exact mem_preorder.2 (.inr ⟨child, isChild, induction child isChild below⟩)

theorem removes_of_mem_remaining {part node : Node} (stays : edit.removes node = false)
    (remains : part ∈ edit.remaining node) : edit.removes part = false := by
  induction node using Node.induction with
  | step node induction =>
      rcases mem_remaining.1 remains with rfl | ⟨child, isChild, kept, below⟩
      · exact stays
      · exact induction child isChild kept below

theorem mem_remaining_or {part node : Node} (inside : part ∈ node.preorder) :
    part ∈ edit.remaining node ∨ ∃ parent ∈ edit.remaining node, ∃ gone ∈ parent.children,
      edit.removes gone = true ∧ part ∈ gone.preorder := by
  induction node using Node.induction with
  | step node induction =>
      rcases mem_preorder.1 inside with rfl | ⟨child, isChild, below⟩
      · exact .inl (mem_remaining.2 (.inl rfl))
      · cases removed : edit.removes child with
        | true =>
            exact .inr ⟨node, mem_remaining.2 (.inl rfl), child, isChild, removed, below⟩
        | false =>
            have up {other : Node} (remains : other ∈ edit.remaining child) :
                other ∈ edit.remaining node :=
                  mem_remaining.2 (.inr ⟨child, isChild, removed, remains⟩)
            rcases induction child isChild below with remains | ⟨parent, remains, gone⟩
            · exact .inl (up remains)
            · exact .inr ⟨parent, up remains, gone⟩

/-! ## The walk -/

section

variable {tree : Node}

theorem Remains.of_head {part new : Node}
    (head : ({ new.toNodeHead with origin := none } : NodeHead) =
      { part.toNodeHead with origin := none })
    (same : edit.Clear part → new = part) : edit.Remains tree part new where
  id := (congrArg NodeHead.id head :)
  head := (congrArg (fun head : NodeHead => { head with leading := part.leading }) head :)
  leading _ := (congrArg NodeHead.leading head :)
  same _ := same

theorem Remains.stripLeading {part new : Node} (remains : edit.Remains tree part new)
    (movesUp : edit.MovesUp tree part) : edit.Remains tree part (stripLeading new) where
  id := remains.id
  head := remains.head
  leading stays := absurd movesUp stays
  same stays := absurd movesUp stays

theorem remains_stripLeading {part new : Node} (movesUp : edit.MovesUp tree part)
    (remains : List.Forall₂ (edit.Remains tree) (edit.remaining part) new.preorder) :
    List.Forall₂ (edit.Remains tree) (edit.remaining part)
      (RemoveAnnotations.stripLeading new).preorder := by
  rw [preorder_eq] at remains ⊢
  cases part
  cases remains with
  | cons first below => exact .cons (first.stripLeading movesUp) below

/-- What has become of the nodes that remain, one by one. -/
theorem remains_of_turn {node : Node} (inside : node ∈ tree.preorder) {changed : Option Node}
    (stays : edit.removes node = false) (turned : edit.turn node = .ofOption changed) :
    List.Forall₂ (edit.Remains tree) (edit.remaining node) (changed.getD node).preorder := by
  induction node using Node.induction generalizing changed with
  | step node induction =>
      have settled := settled_of_turn stays turned
      -- what stands in front of the rest of the children has been removed as long as the next one
      -- leads
      have all (leads : Bool) (front nodes : List Node) (children : node.children = front ++ nodes)
          (removed : leads = true → (node.kind.isDeclaration && edit.losesFirst node) = true ∧
            ∀ node ∈ front, edit.removes node = true) :
          List.Forall₂ (edit.Remains tree) (edit.remainingOfAll nodes)
            ((if leads then stripAll (left edit nodes) else left edit nodes).flatMap preorder) := by
        induction nodes generalizing leads front with
        | nil => cases leads <;> exact .nil
        | cons first rest others =>
            rw [remainingOfAll]
            rcases left_cons first rest with ⟨gone, isLeft⟩ | ⟨new, kept, turns, isLeft⟩
            · rw [if_pos gone, isLeft]
              refine others leads (front ++ [first]) (by simpa using children) fun leading => ?_
              refine ⟨(removed leading).1, List.forall_mem_append.2 ⟨(removed leading).2, ?_⟩⟩
              exact fun node member => List.mem_singleton.1 member ▸ gone
            · have isChild : first ∈ node.children := by simp [children]
              have here := induction first isChild
                (mem_preorder_trans
                  (mem_preorder.2 (.inr ⟨first, isChild, first.self_mem_preorder⟩))
                  inside) kept turns
              have behind := others false (front ++ [first]) (by simpa using children)
                fun never => absurd never Bool.false_ne_true
              rw [if_neg (Bool.eq_false_iff.1 kept), isLeft]
              cases leads with
              | false => exact List.rel_append here behind
              | true =>
                  rcases removed rfl with ⟨losesFirst, allGone⟩
                  rw [Bool.and_eq_true] at losesFirst
                  have nonempty : front ≠ [] := by
                    rintro rfl
                    rw [RemoveAnnotations.losesFirst, children, List.nil_append, List.head?_cons,
                      Option.any_some, kept] at losesFirst
                    cases losesFirst.2
                  have leads : edit.Leads node first :=
                    ⟨losesFirst.1, ⟨front, rest, children, nonempty, allGone⟩, kept⟩
                  exact List.rel_append (remains_stripLeading ⟨node, inside, leads⟩ here) behind
      have below := all _ [] node.children rfl fun leads =>
        ⟨leads, fun _ absent => absurd absent List.not_mem_nil⟩
      rw [← settled.1] at below
      have same (clear : edit.Clear node) : changed.getD node = node := by
        rw [@Transform.ofOption_inj changed none (turned.symm.trans (turn_of_clear clear)),
          Option.getD_none]
      rw [preorder_eq]
      cases node
      exact .cons (.of_head settled.2 same) below

end

end RemoveAnnotations

end Verbatim
