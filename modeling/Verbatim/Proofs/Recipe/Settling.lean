import Verbatim.Proofs.Recipe.Cycles
import Verbatim.Proofs.Traversal.Deciding

/-! Visitors that are done after one walk: a second walk finds nothing to change in what the
first one left. With such a visitor a recipe that goes round until nothing changes is soon
over. -/

namespace Verbatim

/-- The visitor can walk the tree, and what is left when it has done so it can walk again, without
changing the content any more. -/
def Visitor.Settles (visitor : Visitor) (limits : WalkLimits) (tree : Node) : Prop :=
  ∀ session : Session, session.cancelled = false →
    ∃ changed after, walk visitor limits tree session = (.ok changed, after) ∧
      after.cancelled = false ∧
      ∀ session' : Session, session'.cancelled = false →
        ∃ again ended, walk visitor limits (changed.getD tree) session' = (.ok again, ended) ∧
          (again.getD (changed.getD tree)).contentEq (changed.getD tree)

section

variable {visitor : Visitor} {limits : WalkLimits} {tree : Node} {session : Session}

theorem settles_of_decides {sort : Node → Prop} {looks : Option Kind → Node → Look}
    (decides : visitor.DecidesOn sort looks) (time : limits.expired = false) (here : sort tree)
    (twice : ∀ depth depth' left, tree.height ≤ depth →
      left = (Look.become looks depth none tree).getD tree → left.height ≤ depth' →
      sort left ∧ ((Look.become looks depth' none left).getD left).content = left.content) :
    visitor.Settles limits tree := by
  intro session going
  refine ⟨_, _, walk_of_decidesOn decides time here going, going, ?_⟩
  intro session' going'
  generalize isLeft :
    (Look.become looks (tree.height + limits.spareDepth) none tree).getD tree = left
  rcases twice _ (left.height + limits.spareDepth) left (Nat.le_add_right ..) isLeft.symm
    (Nat.le_add_right ..) with ⟨stays, same⟩
  exact ⟨_, _, walk_of_decidesOn decides time stays going', Node.contentEq_iff_content.2 same⟩

end

end Verbatim
