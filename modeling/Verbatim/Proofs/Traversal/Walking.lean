import Verbatim.Proofs.Traversal.Steps

/-! What a traversal keeps. If a property passes to children and to rebuilt parents, and the answers
of all hooks have it where the nodes that they look at do, then it holds of everything a traversal
gives back. Hooks may also leave messages for each other, and rely on what these say. -/

namespace Verbatim

/-! ## Computations of a traversal -/

/-- From the states that are kept the computation leads to such states, and to results with the
property, if it has a result. -/
def Ensures {ε σ α : Type} (kept : σ → Prop) (computation : ExceptT ε (StateM σ) α)
    (holds : α → Prop) : Prop :=
  ∀ state value after, kept state → computation.run.run state = (.ok value, after) →
    kept after ∧ holds value

namespace Ensures

variable {ε σ α β : Type} {kept : σ → Prop} {holds : α → Prop} {later : β → Prop}

theorem pure {value : α} (here : holds value) :
    Ensures kept (Pure.pure value : ExceptT ε (StateM σ) α) holds := by
  intro state result after keeps succeeded
  cases succeeded
  exact ⟨keeps, here⟩

theorem throw {error : ε} :
    Ensures kept (MonadExcept.throw error : ExceptT ε (StateM σ) α) holds := by
  intro state result after keeps succeeded
  cases succeeded

theorem bind {first : ExceptT ε (StateM σ) α} {next : α → ExceptT ε (StateM σ) β}
    (here : Ensures kept first holds)
    (there : ∀ value, holds value → Ensures kept (next value) later) :
    Ensures kept (first >>= next) later := by
  intro state result after keeps succeeded
  cases run : first.run.run state with
  | mk outcome middle =>
      have unfolded : (first >>= next).run.run state =
          match outcome with
          | .ok value => (next value).run.run middle
          | .error error => (.error error, middle) := by
        simp only [ExceptT.run_bind, StateT.run_bind, run]
        cases outcome <;> rfl
      rw [unfolded] at succeeded
      cases outcome with
      | error error => cases succeeded
      | ok value =>
          rcases here state value middle keeps run with ⟨keepsMiddle, holdsValue⟩
          exact there value holdsValue middle result after keepsMiddle succeeded

theorem bindHook {kept : Session → Prop} {first : HookM α} {next : α → HookM β} {trail : Trail}
    (here : Ensures kept (first trail) holds)
    (there : ∀ value, holds value → Ensures kept (next value trail) later) :
    Ensures kept ((first >>= next) trail) later :=
  bind here there

theorem iteHook {kept : Session → Prop} {condition : Prop} [Decidable condition]
    {yes no : HookM α} {trail : Trail} (first : Ensures kept (yes trail) holds)
    (second : Ensures kept (no trail) holds) :
    Ensures kept ((if condition then yes else no) trail) holds := by
  by_cases decided : condition
  · rw [if_pos decided]
    exact first
  · rw [if_neg decided]
    exact second

theorem anything (computation : ExceptT ε (StateM σ) α) :
    Ensures (fun _ => True) computation fun _ => True :=
  fun _ _ _ _ _ => ⟨trivial, trivial⟩

end Ensures

namespace Walk

variable {kept : Session → Prop}

/-! ## Nodes -/

/-- The property passes from a node to its children, and to the node with other children that have
it. What is kept of the session stays when the walk goes down to a child and comes back. -/
structure Passes (kept : Session → Prop) (holds : Node → Prop) : Prop where
  child : ∀ {node child : Node}, holds node → child ∈ node.children → holds child
  rebuilt : ∀ {node : Node} {children : List Node}, holds node →
    (∀ child ∈ children, holds child) → holds (node.withChildren children)
  enter : ∀ session, kept session → kept { session with board := session.board.enter }
  leave : ∀ session, kept session → kept { session with board := session.board.leave }

/-- Every answer to nodes with the property has it, whatever the kept session. -/
structure HooksKeep (visitor : Visitor) (kept : Session → Prop) (holds : Node → Prop) : Prop where
  visit : ∀ {node : Node} {above : List Node}, (∀ seen ∈ node :: above, holds seen) →
    Ensures kept (visitor.visit node ⟨node, above⟩) fun visit =>
      ∀ new ∈ visit.transform.nodes node, holds new
  leave : ∀ {node : Node} {above : List Node}, (∀ seen ∈ node :: above, holds seen) →
    Ensures kept (visitor.leave node ⟨node, above⟩) fun transform =>
      ∀ new ∈ transform.nodes node, holds new

def Around (kept : Session → Prop) (holds : Node → Prop) (state : WalkState) : Prop :=
  kept state.session ∧ ∀ seen ∈ state.trail.nodes, holds seen

/-- Where all that hooks can see has the property, a node is replaced by nodes with it. -/
def StepKeeps (kept : Session → Prop) (holds : Node → Prop) (step : Node → WalkM Transform) :
    Prop :=
  ∀ (node : Node) (state : WalkState) (transform : Transform) (after : WalkState),
    Around kept holds state → state.trail.here = node →
    runAt (step node) state = (.ok transform, after) →
    kept after.session ∧ ∀ new ∈ transform.nodes node, holds new

section

variable {holds : Node → Prop} {visitor : Visitor} {walkChild : Node → WalkM Transform}
  {state after : WalkState}

theorem Around.showing (around : Around kept holds state) {node : Node} (here : holds node) :
    Around kept holds (state.showing node) := by
  refine ⟨around.1, fun seen member => ?_⟩
  rcases List.mem_cons.1 member with rfl | member
  · exact here
  · exact around.2 seen (List.mem_cons_of_mem _ member)

theorem Around.down (passes : Passes kept holds) (around : Around kept holds state) {child : Node}
    (here : holds child) : Around kept holds (state.down child) := by
  refine ⟨passes.enter _ around.1, fun seen member => ?_⟩
  rcases List.mem_cons.1 member with rfl | member
  · exact here
  · exact around.2 seen member

theorem Around.called (around : Around kept holds state) {session : Session} (keeps : kept session)
    (call : HookCall) : Around kept holds (state.after session call) :=
  ⟨keeps, around.2⟩

theorem Around.here (around : Around kept holds state) : holds state.trail.here :=
  around.2 _ List.mem_cons_self

theorem Passes.changed (passes : Passes kept holds) {node : Node} (here : holds node)
    {transforms : List Transform}
    (children : ∀ child ∈ node.childrenAfter transforms, holds child) :
    holds (node.after transforms) := by
  rw [Node.after]
  split
  · exact here
  · exact passes.rebuilt here children

theorem goThrough_around (passes : Passes kept holds) (each : StepKeeps kept holds walkChild)
    {parent : Node} (first : holds parent) {rest : List Node} {transforms all : List Transform}
    (next : parent.children.drop transforms.length = rest)
    (here : state.trail.here = parent.after transforms) (around : Around kept holds state)
    (ran : runAt (goThrough walkChild parent transforms rest) state = (.ok all, after)) :
    Around kept holds after := by
  induction rest generalizing transforms state with
  | nil =>
      cases ran
      exact around
  | cons child rest induction =>
      cases going : state.stopped with
      | true =>
          rw [runAt_goThrough_stopped going] at ran
          cases ran
          exact around
      | false =>
          rw [runAt_goThrough_cons going] at ran
          -- by now the children are those of a node that hooks can see
          have children : ∀ other ∈ parent.childrenAfter transforms, holds other := by
            intro other member
            rw [← Node.children_after, ← here] at member
            exact passes.child around.here member
          have earlier : ∀ other ∈ parent.produced transforms, holds other :=
            fun other member => children other (List.mem_append_left _ member)
          have later : ∀ other ∈ child :: rest, holds other :=
            fun other member => children other (List.mem_append_right _ (next ▸ member))
          rcases walked : runAt (walkChild child) (state.down child) with
            ⟨error | transform, middle⟩
          · rw [walked] at ran
            cases ran
          · rw [walked] at ran
            rcases each child _ transform middle
              (around.down passes (later child List.mem_cons_self)) rfl walked with ⟨keeps, new⟩
            have back : Around kept holds (middle.back state.trail) :=
              ⟨passes.leave _ keeps, around.2⟩
            have shown : holds (parent.after (transforms ++ [transform])) := by
              apply passes.changed first
              rw [Node.childrenAfter_concat next]
              intro other member
              rcases List.mem_append.1 member with member | member
              · rcases List.mem_append.1 member with member | member
                · exact earlier other member
                · exact new other member
              · exact later other (List.mem_cons_of_mem _ member)
            refine induction ?_ rfl (back.showing shown) ran
            rw [List.length_append, List.length_singleton]
            exact Node.drop_of_drop_eq_cons next

theorem lookAgain_keeps (hooks : HooksKeep visitor kept holds) {given current : Node}
    (here : state.trail.here = current) (around : Around kept holds state) {result : Transform}
    (before : ∀ new ∈ result.nodes given, holds new) {transform : Transform}
    (ran : runAt (lookAgain visitor current result) state = (.ok transform, after)) :
    kept after.session ∧ ∀ new ∈ transform.nodes given, holds new := by
  subst here
  rcases answered : (visitor.leave state.trail.here state.trail).run.run state.session with
    ⟨error | answer, session⟩
  · rw [runAt_lookAgain answered] at ran
    cases ran
  · rw [runAt_lookAgain answered] at ran
    rcases hooks.leave around.2 state.session answer session around.1 answered with ⟨keeps, new⟩
    cases answer with
    | keep =>
        cases ran
        exact ⟨keeps, before⟩
    | replace node =>
        cases ran
        exact ⟨keeps, new⟩
    | splice nodes =>
        cases ran
        exact ⟨keeps, new⟩

theorem nodes_ofChange {given current : Node} (first : holds given) (here : holds current)
    (changed : Bool) : ∀ new ∈ (Transform.ofChange changed current).nodes given, holds new := by
  intro new member
  cases changed with
  | false => exact List.mem_singleton.1 member ▸ first
  | true => exact List.mem_singleton.1 member ▸ here

theorem finishNode_keeps (passes : Passes kept holds) (hooks : HooksKeep visitor kept holds)
    (each : StepKeeps kept holds walkChild) {given node : Node} (first : holds given)
    (here : holds node) (around : Around kept holds state) {changed descend : Bool}
    {transform : Transform}
    (ran : runAt (finishNode visitor walkChild node changed descend) state =
      (.ok transform, after)) :
    kept after.session ∧ ∀ new ∈ transform.nodes given, holds new := by
  have shown : Around kept holds (state.showing node) := around.showing here
  cases descend with
  | false =>
      rw [runAt_finishNode_skip] at ran
      exact lookAgain_keeps hooks rfl shown (nodes_ofChange first here changed) ran
  | true =>
      rw [runAt_finishNode_descend] at ran
      rcases gone : runAt (goThrough walkChild node [] node.children) (state.showing node) with
        ⟨error | transforms, middle⟩
      · rw [gone] at ran
        cases ran
      · have aroundMiddle := goThrough_around passes each here
          (drop_length_nil node.children) rfl shown gone
        have trail := congrArg Trail.here (goThrough_trail rfl gone)
        have result := nodes_ofChange first (trail ▸ aroundMiddle.here)
          (changed || !transforms.all (·.isKeep))
        rw [gone, followed_ok] at ran
        split at ran
        · cases ran
          exact ⟨aroundMiddle.1, result⟩
        · exact lookAgain_keeps hooks trail aroundMiddle result ran

theorem walkNode_keeps (passes : Passes kept holds) (hooks : HooksKeep visitor kept holds)
    (limits : WalkLimits) (depth : Nat) :
    StepKeeps kept holds (walkNode visitor limits depth) := by
  induction depth with
  | zero =>
      intro node state transform after around here ran
      cases ran
  | succ depth induction =>
      intro node state transform after around here ran
      subst here
      rw [runAt_walkNode_succ] at ran
      split at ran
      · cases ran
      · rcases visited : runAt (visit visitor state.trail.here) state with ⟨error | answer, middle⟩
        · rw [visited] at ran
          cases ran
        · rcases runAt_call_ok visited with ⟨session, answered, rfl⟩
          rcases hooks.visit around.2 state.session answer session around.1 answered with
            ⟨keeps, new⟩
          rw [visited, followed_ok] at ran
          split at ran
          · cases ran
            exact ⟨keeps, new⟩
          · split at ran
            · cases ran
              exact ⟨keeps, new⟩
            case h_2 current goesOn =>
              have holdsCurrent : holds current := by
                cases transform : answer.transform with
                | keep =>
                    rw [transform] at goesOn
                    cases goesOn
                    exact around.here
                | replace other =>
                    rw [transform] at goesOn new
                    cases goesOn
                    exact new current List.mem_cons_self
                | splice nodes =>
                    rw [transform] at goesOn
                    cases goesOn
              exact finishNode_keeps passes hooks induction around.here holdsCurrent
                (around.called keeps _) ran

end

end Walk

theorem walk_ensures {kept : Session → Prop} {holds : Node → Prop} {visitor : Visitor}
    (passes : Walk.Passes kept holds) (hooks : Walk.HooksKeep visitor kept holds)
    {limits : WalkLimits} {root node : Node} {session : Session}
    (keeps : kept { session with board := .empty }) (here : holds root)
    (walked : (walk visitor limits root session).1 = .ok (some node)) : holds node := by
  have around : Walk.Around kept holds (Walk.start root session) :=
    ⟨keeps, fun seen member => (List.mem_singleton.1 member) ▸ here⟩
  rw [walk, Walk.walkRoot] at walked
  rcases ran : Walk.runAt (Walk.walkNode visitor limits (root.height + limits.spareDepth) root)
      (Walk.start root session) with ⟨error | transform, after⟩
  · rw [ran] at walked
    cases walked
  · have produced := (Walk.walkNode_keeps passes hooks limits _ root _ transform after around rfl
      ran).2
    rw [ran] at walked
    cases transform with
    | keep => cases walked
    | splice nodes => cases walked
    | replace other =>
        cases walked
        exact produced node (List.mem_singleton_self node)

end Verbatim
