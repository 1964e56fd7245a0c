import Verbatim.Proofs.Traversal.Steps
import Verbatim.Proofs.Tree.Renumbering

/-! Traversals of a tree with other numbers. A visitor that makes nothing of the numbers but to tell
elements apart does the same to both trees; so both traversals end alike, with an error at the same
element or with the same tree, but for the numbers. -/

namespace Verbatim

namespace Renumbering

variable (anew : Renumbering)

def trail (trail : Trail) : Trail := ⟨anew.node trail.here, trail.above.map anew.node⟩

def transform : Transform → Transform
  | .keep => .keep
  | .replace node => .replace (anew.node node)
  | .splice nodes => .splice (nodes.map anew.node)

def visit (answer : Visit) : Visit := ⟨anew.transform answer.transform, answer.control⟩

def error (error : WalkError) : WalkError := { error with node := anew.id error.node }

/-- As many elements have been made in both sessions. -/
structure Sessions (session other : Session) : Prop where
  board : other.board = session.board
  cancelled : other.cancelled = session.cancelled
  next : ∃ count, session.nextId = anew.free + count ∧ other.nextId = anew.other + count

structure States (state other : WalkState) : Prop where
  session : anew.Sessions state.session other.session
  trail : other.trail = anew.trail state.trail
  stopped : other.stopped = state.stopped

/-- The other hook answers in the same way. -/
structure Answers {α : Type} (values : α → α) (answer other : Except VisitError α × Session) :
    Prop where
  value : other.1 = answer.1.map values
  session : anew.Sessions answer.2 other.2

/-- The other run ends in the same way. -/
structure Ends {α : Type} (values : α → α) (ran other : Except WalkError α × WalkState) :
    Prop where
  result : other.1 = (ran.1.map values).mapError anew.error
  state : anew.States ran.2 other.2

end Renumbering

/-- For a tree with other numbers, the visitor answers with the same trees with other numbers. -/
structure Visitor.OverlooksNumbers (visitor : Visitor) : Prop where
  visit : ∀ (anew : Renumbering) (node : Node) (trail : Trail) {session other : Session},
    anew.Sessions session other →
    anew.Answers anew.visit ((visitor.visit node trail).run.run session)
      ((visitor.visit (anew.node node) (anew.trail trail)).run.run other)
  leave : ∀ (anew : Renumbering) (node : Node) (trail : Trail) {session other : Session},
    anew.Sessions session other →
    anew.Answers anew.transform ((visitor.leave node trail).run.run session)
      ((visitor.leave (anew.node node) (anew.trail trail)).run.run other)

namespace Renumbering

variable {anew : Renumbering}

/-! ## Answers -/

namespace Sessions

variable {session other : Session}

theorem withBoard (sessions : anew.Sessions session other) (board : Board) :
    anew.Sessions { session with board } { other with board } :=
  ⟨rfl, sessions.cancelled, sessions.next⟩

theorem enter (sessions : anew.Sessions session other) :
    anew.Sessions { session with board := session.board.enter }
      { other with board := other.board.enter } := by
  rw [sessions.board]
  exact sessions.withBoard _

theorem leave (sessions : anew.Sessions session other) :
    anew.Sessions { session with board := session.board.leave }
      { other with board := other.board.leave } := by
  rw [sessions.board]
  exact sessions.withBoard _

theorem other_le (sessions : anew.Sessions session other) : anew.other ≤ other.nextId := by
  rcases sessions.next with ⟨count, -, next⟩
  omega

end Sessions

@[simp] theorem isKeep_transform (transform : Transform) :
    (anew.transform transform).isKeep = transform.isKeep := by
  cases transform <;> rfl

theorem nodes_transform (node : Node) (transform : Transform) :
    (anew.transform transform).nodes (anew.node node) = (transform.nodes node).map anew.node := by
  cases transform <;> rfl

theorem node?_transform (node : Node) (transform : Transform) :
    (anew.transform transform).node? (anew.node node) = (transform.node? node).map anew.node := by
  cases transform <;> rfl

theorem transform_over (answer result : Transform) :
    anew.transform (answer.over result) = (anew.transform answer).over (anew.transform result) := by
  cases answer <;> rfl

theorem transform_ofChange (changed : Bool) (node : Node) :
    anew.transform (.ofChange changed node) = .ofChange changed (anew.node node) := by
  cases changed <;> rfl

/-! ## Children -/

section

variable (parent : Node) (transforms : List Transform)

theorem all_isKeep_map :
    (transforms.map anew.transform).all (·.isKeep) = transforms.all (·.isKeep) := by
  rw [List.all_map]
  exact congrArg transforms.all (funext isKeep_transform)

theorem produced_node : (anew.node parent).produced (transforms.map anew.transform) =
    (parent.produced transforms).map anew.node := by
  rw [Node.produced, Node.produced, node, Node.children_renumber, List.map_flatten]
  generalize parent.children = children
  induction children generalizing transforms with
  | nil => rfl
  | cons child rest induction =>
      cases transforms with
      | nil => rfl
      | cons transform others =>
          rw [List.map_cons, List.map_cons, List.zipWith_cons_cons, List.zipWith_cons_cons,
            List.flatten_cons, induction others, List.map_cons, List.flatten_cons]
          exact congrArg (· ++ _) (nodes_transform child transform)

theorem after_node : (anew.node parent).after (transforms.map anew.transform) =
    anew.node (parent.after transforms) := by
  rw [Node.after, Node.after, all_isKeep_map]
  split
  · rfl
  · rw [Node.childrenAfter, Node.childrenAfter, produced_node, List.length_map]
    refine Eq.trans ?_ (Node.renumber_withChildren _).symm
    rw [List.map_append, List.map_drop, Node.children_renumber]

end

/-! ## States -/

section

variable {state other : WalkState}

theorem States.showing (states : anew.States state other) (node : Node) :
    anew.States (state.showing node) (other.showing (anew.node node)) := by
  refine ⟨states.session, ?_, states.stopped⟩
  show (⟨_, other.trail.above⟩ : Trail) = _
  rw [states.trail]
  rfl

theorem States.down (states : anew.States state other) (child : Node) :
    anew.States (state.down child) (other.down (anew.node child)) := by
  refine ⟨states.session.enter, ?_, states.stopped⟩
  show other.trail.down (anew.node child) = _
  rw [states.trail]
  rfl

theorem States.back (states : anew.States state other) (trail : Trail) :
    anew.States (state.back trail) (other.back (anew.trail trail)) :=
  ⟨states.session.leave, rfl, states.stopped⟩

theorem States.stopping (states : anew.States state other) :
    anew.States state.stopping other.stopping :=
  ⟨states.session, states.trail, rfl⟩

theorem States.after (states : anew.States state other) {session session' : Session}
    (sessions : anew.Sessions session session') (call call' : HookCall) :
    anew.States (state.after session call) (other.after session' call') :=
  ⟨sessions, states.trail, states.stopped⟩

theorem States.refusal? (states : anew.States state other) (limits : WalkLimits) :
    Walk.refusal? limits other.session = Walk.refusal? limits state.session := by
  rw [Walk.refusal?, Walk.refusal?, states.session.cancelled]

end

/-! ## Runs -/

namespace Ends

open Walk

variable {α β : Type} {values : α → α} {later : β → β} {state other : WalkState}

theorem ok (states : anew.States state other) (value : α) :
    anew.Ends values (.ok value, state) (.ok (values value), other) :=
  ⟨rfl, states⟩

theorem error (states : anew.States state other) (node : Node) (error : VisitError) :
    anew.Ends values (.error (.atNode node error), state)
      (.error (.atNode (anew.node node) error), other) := by
  refine ⟨?_, states⟩
  simp [Except.map, WalkError.atNode, Renumbering.error]

theorem follow {ran ran' : Except WalkError α × WalkState}
    {next next' : α → WalkState → Except WalkError β × WalkState}
    (ends : anew.Ends values ran ran')
    (each : ∀ (value : α) {after after' : WalkState}, anew.States after after' →
      anew.Ends later (next value after) (next' (values value) after')) :
    anew.Ends later (followed ran next) (followed ran' next') := by
  rcases ran with ⟨result, after⟩
  rcases ran' with ⟨result', after'⟩
  rcases ends with ⟨same, states⟩
  simp only at same states
  subst same
  cases result with
  | error error => exact ⟨rfl, states⟩
  | ok value => exact each value states

theorem call {toHookCall : Call α → HookCall} {node : Node} {hook hook' : HookM α}
    (states : anew.States state other)
    (answers : anew.Answers values ((hook state.trail).run.run state.session)
      ((hook' other.trail).run.run other.session)) :
    anew.Ends values (runAt (Walk.call toHookCall node hook) state)
      (runAt (Walk.call toHookCall (anew.node node) hook') other) := by
  rw [runAt_call, runAt_call]
  refine ⟨?_, states.after answers.session _ _⟩
  rw [answers.value]
  cases ((hook state.trail).run.run state.session).1 with
  | error error => exact (Ends.error states node error).result
  | ok value => rfl

end Ends

def StepEnds (anew : Renumbering) (step : Node → WalkM Transform) : Prop :=
  ∀ {state other : WalkState}, anew.States state other → ∀ node,
    anew.Ends anew.transform (Walk.runAt (step node) state)
      (Walk.runAt (step (anew.node node)) other)

section

open Walk

variable {state other : WalkState}

theorem goThrough_ends {walkChild : Node → WalkM Transform} (each : anew.StepEnds walkChild)
    (parent : Node) (transforms : List Transform) (rest : List Node)
    (states : anew.States state other) :
    anew.Ends (List.map anew.transform) (runAt (goThrough walkChild parent transforms rest) state)
      (runAt (goThrough walkChild (anew.node parent) (transforms.map anew.transform)
        (rest.map anew.node)) other) := by
  induction rest generalizing transforms state other with
  | nil => exact .ok states transforms
  | cons child rest induction =>
      cases going : state.stopped with
      | true =>
          rw [runAt_goThrough_stopped going, runAt_goThrough_stopped (states.stopped.trans going)]
          exact .ok states transforms
      | false =>
          rw [List.map_cons, runAt_goThrough_cons going,
            runAt_goThrough_cons (states.stopped.trans going)]
          refine (each (states.down child) child).follow fun transform after after' walked => ?_
          have shown := (walked.back state.trail).showing
            (parent.after (transforms ++ [transform]))
          rw [← states.trail, ← after_node, List.map_append] at shown
          have gone := induction (transforms ++ [transform]) shown
          rw [List.map_append] at gone
          exact gone

variable {visitor : Visitor} (overlooks : visitor.OverlooksNumbers)

include overlooks

theorem lookAgain_ends (states : anew.States state other) (node : Node) (result : Transform) :
    anew.Ends anew.transform (runAt (lookAgain visitor node result) state)
      (runAt (lookAgain visitor (anew.node node) (anew.transform result)) other) := by
  have answers := overlooks.leave anew node state.trail states.session
  rw [← states.trail] at answers
  rw [runAt_lookAgain_followed, runAt_lookAgain_followed]
  refine (Ends.call states answers).follow fun answer after after' answered => ?_
  rw [← transform_over]
  exact .ok answered _

theorem finishNode_ends {walkChild : Node → WalkM Transform} (each : anew.StepEnds walkChild)
    (states : anew.States state other) (node : Node) (changed descend : Bool) :
    anew.Ends anew.transform (runAt (finishNode visitor walkChild node changed descend) state)
      (runAt (finishNode visitor walkChild (anew.node node) changed descend) other) := by
  have showing := states.showing node
  cases descend with
  | false =>
      rw [runAt_finishNode_skip, runAt_finishNode_skip, ← transform_ofChange]
      exact lookAgain_ends overlooks showing node _
  | true =>
      have gone := goThrough_ends each node [] node.children showing
      rw [← Node.children_renumber] at gone
      rw [runAt_finishNode_descend, runAt_finishNode_descend]
      refine gone.follow fun transforms after after' walked => ?_
      rw [walked.stopped, all_isKeep_map, after_node, ← transform_ofChange]
      split
      · exact .ok walked _
      · exact lookAgain_ends overlooks walked _ _

theorem walkNode_ends (limits : WalkLimits) (depth : Nat) :
    anew.StepEnds (walkNode visitor limits depth) := by
  induction depth with
  | zero => exact fun states node => .error states node .tooDeep
  | succ depth induction =>
      intro state other states node
      rw [runAt_walkNode_succ, runAt_walkNode_succ, states.refusal?]
      cases refusal? limits state.session with
      | some error => exact .error states node error
      | none =>
          have answers := overlooks.visit anew node state.trail states.session
          rw [← states.trail] at answers
          refine (Ends.call states answers).follow fun answer after after' visited => ?_
          simp only [Renumbering.visit, node?_transform, isKeep_transform]
          split
          · exact .ok visited.stopping _
          · cases answer.transform.node? node with
            | none => exact .ok visited _
            | some current => exact finishNode_ends overlooks induction visited current _ _

end

end Renumbering

open Renumbering in
/-- The walk through a tree with other numbers gives the tree that the walk through the tree itself
gives, with other numbers, or fails at the same element. -/
theorem walk_renumbered {visitor : Visitor} (overlooks : visitor.OverlooksNumbers)
    (limits : WalkLimits) (anew : Renumbering) (root : Node) {session other : Session}
    (sessions : anew.Sessions session other) :
    (walk visitor limits (anew.node root) other).1 =
        (((walk visitor limits root session).1.map (Option.map anew.node)).mapError anew.error) ∧
      anew.Sessions (walk visitor limits root session).2
        (walk visitor limits (anew.node root) other).2 := by
  have started : anew.States (Walk.start root session) (Walk.start (anew.node root) other) :=
    ⟨sessions.withBoard .empty, rfl, rfl⟩
  have ends := walkNode_ends overlooks limits (root.height + limits.spareDepth) started root
  have height : (anew.node root).height = root.height := Node.height_renumber anew.id root
  refine ⟨?_, by rw [walk, walk, Walk.walkRoot, Walk.walkRoot, height]; exact ends.state.session⟩
  rw [walk_fst, walk_fst, Walk.walkRoot, Walk.walkRoot, height, ends.result]
  cases (Walk.runAt (Walk.walkNode visitor limits (root.height + limits.spareDepth) root)
      (Walk.start root session)).1 with
  | error error => rfl
  | ok transform =>
      cases transform with
      | keep => rfl
      | replace node => rfl
      | splice nodes =>
          have refused : anew.Ends (Option.map anew.node) _ _ := .error started root .rootSpliced
          exact refused.result

end Verbatim
