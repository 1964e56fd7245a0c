import Mathlib.Data.List.Forall2
import Verbatim.Proofs.Traversal.Walking

/-! Traversals that put one node in the place of another. When every hook answers with a node
that is related to the one it was called for, the tree that comes of the whole traversal is
related to the tree that it began with, whatever the limits were and wherever it was stopped. -/

namespace Verbatim

namespace Walk

/-- The relation passes from the children of a node to the node that is made anew of others. -/
structure Composes (related : Node → Node → Prop) : Prop where
  refl : ∀ node, related node node
  trans : ∀ {first second third : Node}, related first second → related second third →
    related first third
  withChildren : ∀ {node : Node} {children : List Node},
    List.Forall₂ related node.children children → related node (node.withChildren children)

def Relates (related : Node → Node → Prop) (given : Node) (transform : Transform) : Prop :=
  ∃ node, transform.nodes given = [node] ∧ related given node

structure HooksRelate (visitor : Visitor) (related : Node → Node → Prop) : Prop where
  visit : ∀ (node : Node) (trail : Trail), Ensures (fun _ => True) (visitor.visit node trail)
    fun visit => Relates related node visit.transform
  leave : ∀ (node : Node) (trail : Trail), Ensures (fun _ => True) (visitor.leave node trail)
    (Relates related node)

def StepRelates (related : Node → Node → Prop) (step : Node → WalkM Transform) : Prop :=
  ∀ {node : Node} {state after : WalkState} {transform : Transform},
    runAt (step node) state = (.ok transform, after) → Relates related node transform

variable {related : Node → Node → Prop} (composes : Composes related) {visitor : Visitor}
  {walkChild : Node → WalkM Transform} {state after : WalkState}

theorem goThrough_relates (each : StepRelates related walkChild) {parent : Node} {rest : List Node}
    {transforms all : List Transform} (next : parent.children.drop transforms.length = rest)
    (earlier : List.Forall₂ related (parent.children.take transforms.length)
      (parent.produced transforms))
    (ran : runAt (goThrough walkChild parent transforms rest) state = (.ok all, after)) :
    List.Forall₂ related (parent.children.take all.length) (parent.produced all) := by
  induction rest generalizing transforms state with
  | nil =>
      cases ran
      exact earlier
  | cons child rest induction =>
      cases going : state.stopped with
      | true =>
          rw [runAt_goThrough_stopped going] at ran
          cases ran
          exact earlier
      | false =>
          rw [runAt_goThrough_cons going] at ran
          rcases walked : runAt (walkChild child) (state.down child) with
            ⟨error | transform, middle⟩
          · rw [walked] at ran
            cases ran
          · rw [walked] at ran
            rcases each walked with ⟨node, nodes, isRelated⟩
            have one : parent.children.take (transforms ++ [transform]).length =
                parent.children.take transforms.length ++ [child] := by
              rw [List.length_append, List.length_singleton, List.take_add_one, ← List.head?_drop,
                next]
              rfl
            refine induction ?_ ?_ ran
            · rw [List.length_append, List.length_singleton]
              exact Node.drop_of_drop_eq_cons next
            · rw [one, Node.produced_concat next, nodes]
              exact List.rel_append earlier (.cons isRelated .nil)

include composes

theorem Composes.forall₂_refl (nodes : List Node) : List.Forall₂ related nodes nodes :=
  List.forall₂_same.2 fun node _ => composes.refl node

theorem Composes.rebuilt {parent : Node} {transforms : List Transform}
    (first : List.Forall₂ related (parent.children.take transforms.length)
      (parent.produced transforms)) : related parent (parent.after transforms) := by
  rw [Node.after]
  split
  · exact composes.refl parent
  · apply composes.withChildren
    rw [Node.childrenAfter]
    nth_rewrite 1 [← List.take_append_drop transforms.length parent.children]
    exact List.rel_append first (composes.forall₂_refl (parent.children.drop transforms.length))

theorem Composes.ofChange {given node : Node} (isRelated : related given node) (changed : Bool) :
    Relates related given (.ofChange changed node) := by
  cases changed with
  | false => exact ⟨given, rfl, composes.refl given⟩
  | true => exact ⟨node, rfl, isRelated⟩

theorem lookAgain_relates (hooks : HooksRelate visitor related) {given current : Node}
    (isRelated : related given current) {result transform : Transform}
    (before : Relates related given result)
    (ran : runAt (lookAgain visitor current result) state = (.ok transform, after)) :
    Relates related given transform := by
  rcases answered : (visitor.leave current state.trail).run.run state.session with
    ⟨error | answer, session⟩
  · rw [runAt_lookAgain answered] at ran
    cases ran
  · rw [runAt_lookAgain answered] at ran
    rcases (hooks.leave current state.trail state.session answer session trivial answered).2 with
      ⟨other, nodes, next⟩
    cases answer with
    | keep =>
        cases ran
        exact before
    | replace node =>
        cases ran
        exact ⟨other, nodes, composes.trans isRelated next⟩
    | splice all =>
        cases ran
        exact ⟨other, nodes, composes.trans isRelated next⟩

theorem finishNode_relates (hooks : HooksRelate visitor related)
    (each : StepRelates related walkChild)
    {given node : Node} (isRelated : related given node) {changed descend : Bool}
    {transform : Transform}
    (ran : runAt (finishNode visitor walkChild node changed descend) state =
      (.ok transform, after)) : Relates related given transform := by
  cases descend with
  | false =>
      rw [runAt_finishNode_skip] at ran
      exact lookAgain_relates composes hooks isRelated (composes.ofChange isRelated changed) ran
  | true =>
      rw [runAt_finishNode_descend] at ran
      rcases gone : runAt (goThrough walkChild node [] node.children) (state.showing node) with
        ⟨error | transforms, middle⟩
      · rw [gone] at ran
        cases ran
      · have nothing : List.Forall₂ related (node.children.take ([] : List Transform).length)
            (node.produced []) := by simp [Node.produced]
        have first := goThrough_relates each (drop_length_nil node.children) nothing gone
        have rebuilt := composes.trans isRelated (composes.rebuilt first)
        rw [gone, followed_ok] at ran
        split at ran
        · cases ran
          exact composes.ofChange rebuilt _
        · exact lookAgain_relates composes hooks rebuilt (composes.ofChange rebuilt _) ran

theorem walkNode_relates (hooks : HooksRelate visitor related) (limits : WalkLimits) (depth : Nat) :
    StepRelates related (walkNode visitor limits depth) := by
  induction depth with
  | zero =>
      intro node state after transform ran
      cases ran
  | succ depth induction =>
      intro node state after transform ran
      rw [runAt_walkNode_succ] at ran
      split at ran
      · cases ran
      · rcases visited : runAt (visit visitor node) state with ⟨error | answer, middle⟩
        · rw [visited] at ran
          cases ran
        · rcases runAt_call_ok visited with ⟨session, answered, rfl⟩
          have answers :=
            (hooks.visit node state.trail state.session answer session trivial answered).2
          rw [visited, followed_ok] at ran
          split at ran
          · cases ran
            exact answers
          · split at ran
            · cases ran
              exact answers
            case h_2 current goesOn =>
              rcases answers with ⟨other, nodes, isRelated⟩
              have same : other = current := by
                cases transform : answer.transform with
                | splice all =>
                    rw [transform] at goesOn
                    cases goesOn
                | _ =>
                    rw [transform] at goesOn nodes
                    cases goesOn
                    exact (List.cons.inj nodes).1.symm
              exact finishNode_relates composes hooks induction (same ▸ isRelated) ran

end Walk

theorem walk_relates {related : Node → Node → Prop} (composes : Walk.Composes related)
    {visitor : Visitor} (hooks : Walk.HooksRelate visitor related)
    {limits : WalkLimits} {root : Node}
    {session : Session} {changed : Option Node}
    (walked : (walk visitor limits root session).1 = .ok changed) :
    related root (changed.getD root) := by
  rw [walk, Walk.walkRoot] at walked
  rcases ran : Walk.runAt (Walk.walkNode visitor limits (root.height + limits.spareDepth) root)
      (Walk.start root session) with ⟨error | transform, after⟩
  · rw [ran] at walked
    cases walked
  · rcases Walk.walkNode_relates composes hooks limits _ ran with ⟨node, nodes, isRelated⟩
    rw [ran] at walked
    cases transform with
    | splice all => cases walked
    | _ =>
        cases walked
        rwa [← (List.cons.inj nodes).1] at isRelated

end Verbatim
