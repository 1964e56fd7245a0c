import Verbatim.Proofs.Traversal.Deciding

/-! Visitors that answer more often. A visitor that gives the answers of another one wherever
that one gives any may go on where the other one gives up. Every traversal that the other one
brings to its end goes the same way with it. -/

namespace Verbatim

/-- Where the leader answers, the follower answers the same. -/
structure Visitor.Follows (follower leader : Visitor) : Prop where
  visit : ∀ {node : Node} {trail : Trail} {session after : Session} {answer : Visit},
    (leader.visit node trail).run.run session = (.ok answer, after) →
      (follower.visit node trail).run.run session = (.ok answer, after)
  leave : ∀ {node : Node} {trail : Trail} {session after : Session} {answer : Transform},
    (leader.leave node trail).run.run session = (.ok answer, after) →
      (follower.leave node trail).run.run session = (.ok answer, after)

namespace Walk

def Refines {α : Type} (leading following : WalkM α) : Prop :=
  ∀ (state after : WalkState) (value : α),
    runAt leading state = (.ok value, after) → runAt following state = (.ok value, after)

namespace Refines

variable {α β : Type}

theorem refl (computation : WalkM α) : Refines computation computation :=
  fun _ _ _ ran => ran

theorem bind {leading following : WalkM α} {next more : α → WalkM β}
    (here : Refines leading following) (there : ∀ value, Refines (next value) (more value)) :
    Refines (leading >>= next) (following >>= more) := by
  intro state last result ran
  rw [runAt_bind] at ran ⊢
  rcases first : runAt leading state with ⟨error | value, after⟩
  · rw [first] at ran
    cases ran
  · rw [first] at ran
    rw [here _ _ _ first]
    exact there value _ _ _ ran

theorem ite {condition : Prop} [Decidable condition] {leading following other another : WalkM α}
    (here : Refines leading following) (there : Refines other another) :
    Refines (if condition then leading else other) (if condition then following else another) := by
  split
  · exact here
  · exact there

theorem below {leading following : WalkM α} (child : Node) (inside : Refines leading following) :
    Refines (Walk.below child leading) (Walk.below child following) :=
  .bind (.refl _) fun _ => .bind (.refl _) fun _ => .bind inside fun _ => .refl _

theorem call {leading following : HookM α} (toHookCall : Call α → HookCall) (node : Node)
    (follows : ∀ {trail : Trail} {session after : Session} {answer : α},
      (leading trail).run.run session = (.ok answer, after) →
        (following trail).run.run session = (.ok answer, after)) :
    Refines (Walk.call toHookCall node leading) (Walk.call toHookCall node following) := by
  intro state after value ran
  rcases runAt_call_ok ran with ⟨session, answered, rfl⟩
  rw [runAt_call, follows answered]
  rfl

end Refines

variable {leader follower : Visitor} (follows : follower.Follows leader)
  {leading following : Node → WalkM Transform}
  (each : ∀ node, Refines (leading node) (following node))

include each

theorem walkChildren_refines (parent : Node) (number : Nat) (rebuilt : Option (List Node))
    (rest : List Node) : Refines (walkChildren leading parent number rebuilt rest)
      (walkChildren following parent number rebuilt rest) := by
  induction rest generalizing number rebuilt with
  | nil => exact .refl _
  | cons child rest induction =>
      refine .bind (.refl _) fun _ => .ite (.refl _) ?_
      refine .bind (.below child (each child)) fun transform => ?_
      exact .bind (.refl _) fun rebuilt => induction (number + 1) rebuilt

include follows

theorem finishNode_refines (node : Node) (changed descend : Bool) :
    Refines (finishNode leader leading node changed descend)
      (finishNode follower following node changed descend) := by
  have again (node : Node) (result : Transform) :
      Refines (lookAgain leader node result) (lookAgain follower node result) :=
    .bind (.call .leave node follows.leave) fun _ => .refl _
  refine .bind (.refl _) fun _ => .ite ?_ (again _ _)
  have rebuilds : Refines (rebuild leading node) (rebuild following node) :=
    .bind (walkChildren_refines each node 0 none node.children) fun _ => .refl _
  exact .bind rebuilds fun _ => .bind (.refl _) fun _ => .ite (.refl _) (again _ _)

omit each

theorem walkNode_refines (limits : WalkLimits) (depth : Nat) (node : Node) :
    Refines (walkNode leader limits depth node) (walkNode follower limits depth node) := by
  induction depth generalizing node with
  | zero => exact .refl _
  | succ depth induction =>
      refine .bind (.refl _) fun _ => .bind (.call .visit node follows.visit) fun answer => ?_
      refine .ite (.refl _) ?_
      cases answer.transform with
      | keep => exact finishNode_refines follows induction _ _ _
      | replace current => exact finishNode_refines follows induction _ _ _
      | splice nodes => exact .refl _

end Walk

theorem walk_follows {leader follower : Visitor} (follows : follower.Follows leader)
    {limits : WalkLimits} {root : Node} {session : Session} {changed : Option Node}
    (walked : (walk leader limits root session).1 = .ok changed) :
    (walk follower limits root session).1 = .ok changed := by
  rw [walk, Walk.walkRoot] at walked ⊢
  rcases ran : Walk.runAt (Walk.walkNode leader limits (root.height + limits.spareDepth) root)
      (Walk.start root session) with ⟨error | transform, after⟩
  · rw [ran] at walked
    cases walked
  · rw [ran] at walked
    rw [Walk.walkNode_refines follows limits _ root _ _ _ ran]
    exact walked

/-! ## Looking -/

def Visitor.looking (looks : Option Kind → Node → Look) : Visitor :=
  .onVisit "" fun node => do
    return (looks ((← read).above.head?.map (·.kind)) node).visit

theorem accepted_of_walk {visitor : Visitor} {limits : WalkLimits} {root : Node} {session : Session}
    {changed : Option Node} (walked : (walk visitor limits root session).1 = .ok changed) :
    limits.expired = false ∧ session.cancelled = false := by
  have isSucc : root.height + limits.spareDepth = root.height - 1 + limits.spareDepth + 1 := by
    have := root.height_pos
    omega
  rw [walk, Walk.walkRoot, isSucc, Walk.runAt_walkNode_succ] at walked
  cases refused : Walk.refusal? limits (Walk.start root session).session with
  | some error =>
      rw [refused] at walked
      cases walked
  | none =>
      rw [Walk.refusal?] at refused
      cases going : session.cancelled with
      | true => simp [Walk.start, going] at refused
      | false =>
          cases time : limits.expired with
          | true => simp [Walk.start, going, time] at refused
          | false => exact ⟨rfl, rfl⟩

/-- A visitor that looks at nodes in the given way wherever it answers: its walks, when they
come to an end, make of a tree what is decided by looking. -/
theorem become_of_walk {visitor : Visitor} {looks : Option Kind → Node → Look}
    (follows : (Visitor.looking looks).Follows visitor)
    (height_le : ∀ (parent : Option Kind) (node new : Node),
      (looks parent node).changed = some new → new.height ≤ node.height)
    {limits : WalkLimits} {root : Node} {session : Session} {changed : Option Node}
    (walked : (walk visitor limits root session).1 = .ok changed) :
    changed = Look.become looks (root.height + limits.spareDepth) none root := by
  have decides : (Visitor.looking looks).Decides looks :=
    ⟨fun _ _ _ _ => rfl, fun _ _ _ => rfl, height_le, fun _ _ _ _ _ => trivial⟩
  rcases accepted_of_walk walked with ⟨time, going⟩
  have same := walk_follows follows walked
  rw [walk_of_decides decides time root going] at same
  exact (Except.ok.inj same).symm

end Verbatim
