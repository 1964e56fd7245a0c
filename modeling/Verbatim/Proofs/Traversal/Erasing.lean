import Verbatim.Proofs.Traversal.Steps

/-! Looking away from something at all nodes: from where they were read, or from their numbers as
well. Two runs are the same to someone who looks away when they call hooks for the same nodes, with
the same around them, and end in the same way. -/

namespace Verbatim

/-- What to look away from at nodes, and of the session. Where a node was read is always part of it,
since changes forget that. -/
structure Erasure where
  head : NodeHead → NodeHead
  id : NodeId → NodeId
  nextId : Nat → Nat
  log : List LogEntry → List LogEntry
  origin_head : ∀ node, (head node).origin = none
  head_origin : ∀ node, head { node with origin := none } = head node
  id_head : ∀ node, (head node).id = id node.id

namespace Erasure

/-- Looking away from where nodes were read. -/
def origins : Erasure where
  head node := { node with origin := none }
  id number := number
  nextId number := number
  log entries := entries
  origin_head _ := rfl
  head_origin _ := rfl
  id_head _ := rfl

/-- Looking at the content only. -/
def content : Erasure where
  head := Node.headContent
  id _ := .unnumbered
  nextId _ := 0
  log _ := []
  origin_head _ := rfl
  head_origin _ := rfl
  id_head _ := rfl

variable (erasure : Erasure)

mutual

/-- What is left of a tree. -/
def node : Node → Node
  | ⟨head, children⟩ => ⟨erasure.head head, nodes children⟩

def nodes : List Node → List Node
  | [] => []
  | first :: rest => node first :: nodes rest

end

def trail (trail : Trail) : Trail := ⟨erasure.node trail.here, erasure.nodes trail.above⟩

def session (session : Session) : Session :=
  ⟨session.board, erasure.nextId session.nextId, session.cancelled, erasure.log session.log⟩

/-- Whether a node was kept or replaced by one that looks the same is looked away from, too. -/
def transform (given : Node) : Transform → Transform
  | .keep => .replace (erasure.node given)
  | .replace node => .replace (erasure.node node)
  | .splice nodes => .splice (erasure.nodes nodes)

def visit (given : Node) (answer : Visit) : Visit :=
  ⟨erasure.transform given answer.transform, answer.control⟩

/-- An error, without its place in the text. -/
def error (error : WalkError) : WalkError := ⟨error.error, erasure.id error.node, none, none⟩

def call {α : Type} (answer : Node → α → α) (call : Call α) : Call α :=
  ⟨erasure.node call.node, erasure.trail call.trail, erasure.session call.session,
    call.answer.map (answer call.node)⟩

def hookCall : HookCall → HookCall
  | .visit call => .visit (erasure.call erasure.visit call)
  | .leave call => .leave (erasure.call erasure.transform call)

def state (state : WalkState) : WalkState :=
  ⟨erasure.session state.session, erasure.trail state.trail, state.stopped,
    state.calls.map erasure.hookCall⟩

/-- What a hook answered for a node, and what it left of the session. -/
def reply {α : Type} (answer : Node → α → α) (given : Node)
    (reply : Except VisitError α × Session) : Except VisitError α × Session :=
  (reply.1.map (answer given), erasure.session reply.2)

/-! ## Nodes -/

theorem nodes_eq_map (nodes : List Node) : erasure.nodes nodes = nodes.map erasure.node := by
  induction nodes with
  | nil => rfl
  | cons first rest induction => rw [Erasure.nodes, induction, List.map_cons]

theorem node_eq (node : Node) :
    erasure.node node = ⟨erasure.head node.toNodeHead, erasure.nodes node.children⟩ := by
  cases node
  rw [Erasure.node]

@[simp] theorem nodes_append (first second : List Node) :
    erasure.nodes (first ++ second) = erasure.nodes first ++ erasure.nodes second := by
  simp [nodes_eq_map]

theorem node_height (node : Node) : (erasure.node node).height = node.height := by
  induction node using Node.induction with
  | step node induction =>
      have all : Node.heightOfAll (erasure.nodes node.children) =
          Node.heightOfAll node.children := by
        generalize node.children = children at induction
        induction children with
        | nil => rfl
        | cons first rest others =>
            rw [Erasure.nodes, Node.heightOfAll, Node.heightOfAll,
              induction first List.mem_cons_self,
              others fun child member => induction child (List.mem_cons_of_mem first member)]
      rcases node with ⟨head, children⟩
      rw [node_eq, Node.height, Node.height, all]

theorem node_withChildren (node : Node) (children : List Node) :
    erasure.node (node.withChildren children) =
      ⟨erasure.head node.toNodeHead, erasure.nodes children⟩ := by
  rw [node_eq]
  exact congrArg (fun head => Node.mk head _) (erasure.head_origin node.toNodeHead)

variable {erasure}

section

variable {first second : Node}

theorem children_of_node (same : erasure.node first = erasure.node second) :
    erasure.nodes first.children = erasure.nodes second.children := by
  rw [node_eq, node_eq] at same
  exact congrArg Node.children same

theorem head_of_node (same : erasure.node first = erasure.node second) :
    erasure.head first.toNodeHead = erasure.head second.toNodeHead := by
  rw [node_eq, node_eq] at same
  exact congrArg Node.toNodeHead same

theorem id_of_node (same : erasure.node first = erasure.node second) :
    erasure.id first.id = erasure.id second.id := by
  rw [← erasure.id_head, ← erasure.id_head, head_of_node same]

theorem height_of_node (same : erasure.node first = erasure.node second) :
    first.height = second.height := by
  rw [← erasure.node_height, same, erasure.node_height]

theorem node_withChildren_of_node {children others : List Node}
    (same : erasure.node first = erasure.node second)
    (sameChildren : erasure.nodes children = erasure.nodes others) :
    erasure.node (first.withChildren children) = erasure.node (second.withChildren others) := by
  rw [node_withChildren, node_withChildren, sameChildren, head_of_node same]

theorem node_after (node : Node) (transforms : List Transform) :
    erasure.node (node.after transforms) =
      erasure.node (node.withChildren (node.childrenAfter transforms)) := by
  rw [Node.after]
  split
  case isTrue kept =>
    rw [Node.childrenAfter_of_all_isKeep kept, node_withChildren, node_eq]
  case isFalse => rfl

theorem error_atNode (same : erasure.node first = erasure.node second) (error : VisitError) :
    erasure.error (.atNode first error) = erasure.error (.atNode second error) := by
  rw [Erasure.error, Erasure.error]
  exact congrArg (fun id => WalkError.mk error id none none) (id_of_node same)

/-! ## Transforms -/

variable {transform other : Transform}

theorem nodes_of_transform
    (same : erasure.transform first transform = erasure.transform second other) :
    erasure.nodes (transform.nodes first) = erasure.nodes (other.nodes second) := by
  have nodes (node : Node) (transform : Transform) :
      (erasure.transform node transform).nodes node = erasure.nodes (transform.nodes node) := by
    cases transform <;> simp [Erasure.transform, Transform.nodes, nodes_eq_map]
  have sameNodes : (erasure.transform first transform).nodes first =
      (erasure.transform second other).nodes second := by
    rw [same]
    cases other <;> rfl
  rw [← nodes, ← nodes, sameNodes]

theorem node?_of_transform
    (same : erasure.transform first transform = erasure.transform second other) :
    (transform.node? first).map erasure.node = (other.node? second).map erasure.node := by
  have node? (node : Node) (transform : Transform) :
      (erasure.transform node transform).node? node = (transform.node? node).map erasure.node := by
    cases transform <;> rfl
  rw [← node?, ← node?, same]
  cases other <;> rfl

theorem transform_over {node : Node} {result : Transform}
    (stands : erasure.transform node result = .replace (erasure.node first)) (answer : Transform) :
    erasure.transform node (answer.over result) = erasure.transform first answer := by
  cases answer with
  | keep => exact stands
  | replace node => rfl
  | splice nodes => rfl

theorem transform_ofChange {changed : Bool} (unchanged : changed = false → second = first) :
    erasure.transform first (.ofChange changed second) = .replace (erasure.node second) := by
  cases changed with
  | true => rfl
  | false => rw [unchanged rfl]; rfl

end

/-! ## Runs -/

/-- Two runs that are the same when one looks away, with results that agree. -/
inductive Same {α β : Type} (erasure : Erasure) (agree : α → β → Prop) :
    Except WalkError α × WalkState → Except WalkError β × WalkState → Prop
  | ok {value : α} {other : β} {state state' : WalkState} :
      agree value other → erasure.state state = erasure.state state' →
      Same erasure agree (.ok value, state) (.ok other, state')
  | error {error other : WalkError} {state state' : WalkState} :
      erasure.error error = erasure.error other → erasure.state state = erasure.state state' →
      Same erasure agree (.error error, state) (.error other, state')

namespace Same

variable {α β γ δ : Type} {agree : α → β → Prop} {agreeNext : γ → δ → Prop}

theorem state {first : Except WalkError α × WalkState} {second : Except WalkError β × WalkState}
    (same : Same erasure agree first second) : erasure.state first.2 = erasure.state second.2 := by
  cases same with
  | ok _ states => exact states
  | error _ states => exact states

theorem follow {first : Except WalkError α × WalkState} {second : Except WalkError β × WalkState}
    {next : α → WalkState → Except WalkError γ × WalkState}
    {nextOther : β → WalkState → Except WalkError δ × WalkState}
    (same : Same erasure agree first second)
    (later : ∀ value other state state', agree value other →
      erasure.state state = erasure.state state' →
      Same erasure agreeNext (next value state) (nextOther other state')) :
    Same erasure agreeNext (Walk.followed first next) (Walk.followed second nextOther) := by
  cases same with
  | ok agrees states => exact later _ _ _ _ agrees states
  | error errors states => exact .error errors states

end Same

section

variable {state state' : WalkState} {first second : Node}

theorem stopped_of_state (same : erasure.state state = erasure.state state') :
    state.stopped = state'.stopped := by
  show (erasure.state state).stopped = (erasure.state state').stopped
  rw [same]

theorem cancelled_of_session {session session' : Session}
    (same : erasure.session session = erasure.session session') :
    session.cancelled = session'.cancelled := by
  show (erasure.session session).cancelled = (erasure.session session').cancelled
  rw [same]

theorem session_of_state (same : erasure.state state = erasure.state state') :
    erasure.session state.session = erasure.session state'.session := by
  show (erasure.state state).session = (erasure.state state').session
  rw [same]

theorem trail_of_state (same : erasure.state state = erasure.state state') :
    erasure.trail state.trail = erasure.trail state'.trail := by
  show (erasure.state state).trail = (erasure.state state').trail
  rw [same]

theorem state_showing (same : erasure.state state = erasure.state state')
    (sameNode : erasure.node first = erasure.node second) :
    erasure.state (state.showing first) = erasure.state (state'.showing second) := by
  have shown (state : WalkState) (node : Node) : erasure.state (state.showing node) =
      (erasure.state state).showing (erasure.node node) := rfl
  rw [shown, shown, same, sameNode]

theorem state_down (same : erasure.state state = erasure.state state')
    (sameNode : erasure.node first = erasure.node second) :
    erasure.state (state.down first) = erasure.state (state'.down second) := by
  have gone (state : WalkState) (node : Node) : erasure.state (state.down node) =
      (erasure.state state).down (erasure.node node) := rfl
  rw [gone, gone, same, sameNode]

theorem state_back {trail trail' : Trail} (same : erasure.state state = erasure.state state')
    (sameTrail : erasure.trail trail = erasure.trail trail') :
    erasure.state (state.back trail) = erasure.state (state'.back trail') := by
  have came (state : WalkState) (trail : Trail) : erasure.state (state.back trail) =
      (erasure.state state).back (erasure.trail trail) := rfl
  rw [came, came, same, sameTrail]

theorem state_stopping (same : erasure.state state = erasure.state state') :
    erasure.state state.stopping = erasure.state state'.stopping := by
  have stopped (state : WalkState) :
      erasure.state state.stopping = (erasure.state state).stopping := rfl
  rw [stopped, stopped, same]

theorem refusal?_of_state (limits : WalkLimits)
    (same : erasure.state state = erasure.state state') :
    Walk.refusal? limits state.session = Walk.refusal? limits state'.session := by
  rw [Walk.refusal?, Walk.refusal?, cancelled_of_session (session_of_state same)]

end

end Erasure

/-- The visitor does not look at what is looked away from: for nodes that look the same, with
the same around them, it answers the same. -/
structure Visitor.Respects (visitor : Visitor) (erasure : Erasure) : Prop where
  visit : ∀ {first second : Node} {trail trail' : Trail} {session session' : Session},
    erasure.node first = erasure.node second → erasure.trail trail = erasure.trail trail' →
    erasure.session session = erasure.session session' →
    erasure.reply erasure.visit first ((visitor.visit first trail).run.run session) =
      erasure.reply erasure.visit second ((visitor.visit second trail').run.run session')
  leave : ∀ {first second : Node} {trail trail' : Trail} {session session' : Session},
    erasure.node first = erasure.node second → erasure.trail trail = erasure.trail trail' →
    erasure.session session = erasure.session session' →
    erasure.reply erasure.transform first ((visitor.leave first trail).run.run session) =
      erasure.reply erasure.transform second ((visitor.leave second trail').run.run session')

namespace Erasure

variable {erasure : Erasure} {visitor : Visitor} {state state' : WalkState} {first second : Node}

/-- A hook that answers the same is called in the same way. -/
theorem runAt_call_same {α : Type} {toHookCall : Call α → HookCall} {answer : Node → α → α}
    {hook hook' : HookM α}
    (logged : ∀ call, erasure.hookCall (toHookCall call) = toHookCall (erasure.call answer call))
    (answers : erasure.reply answer first ((hook state.trail).run.run state.session) =
      erasure.reply answer second ((hook' state'.trail).run.run state'.session))
    (sameNode : erasure.node first = erasure.node second)
    (same : erasure.state state = erasure.state state') :
    Same erasure (fun value other => answer first value = answer second other)
      (Walk.runAt (Walk.call toHookCall first hook) state)
      (Walk.runAt (Walk.call toHookCall second hook') state') := by
  rw [Walk.runAt_call, Walk.runAt_call]
  rcases answered₁ : (hook state.trail).run.run state.session with ⟨answer₁, session₁⟩
  rcases answered₂ : (hook' state'.trail).run.run state'.session with ⟨answer₂, session₂⟩
  rw [answered₁, answered₂] at answers
  rcases Prod.mk.inj answers with ⟨sameAnswer, sameSession⟩
  have sameCall : erasure.call answer ⟨first, state.trail, state.session, answer₁⟩ =
      erasure.call answer ⟨second, state'.trail, state'.session, answer₂⟩ := by
    show Call.mk (erasure.node first) (erasure.trail state.trail) (erasure.session state.session)
      (answer₁.map (answer first)) = _
    rw [sameNode, trail_of_state same, session_of_state same, sameAnswer]
    rfl
  have states : erasure.state (state.after session₁
        (toHookCall ⟨first, state.trail, state.session, answer₁⟩)) =
      erasure.state (state'.after session₂
        (toHookCall ⟨second, state'.trail, state'.session, answer₂⟩)) := by
    have after (state : WalkState) (session : Session) (call : HookCall) :
        erasure.state (state.after session call) =
          (erasure.state state).after (erasure.session session) (erasure.hookCall call) := rfl
    rw [after, after, same, sameSession, logged, logged, sameCall]
  cases answer₁ with
  | error error =>
      cases answer₂ with
      | ok other => cases sameAnswer
      | error other =>
          cases sameAnswer
          exact .error (error_atNode sameNode error) states
  | ok value =>
      cases answer₂ with
      | error other => cases sameAnswer
      | ok other => exact .ok (Except.ok.inj sameAnswer) states

end Erasure

theorem Visitor.respects_of_answer {erasure : Erasure} {name : String} {answer : Node → Visit}
    (answers : ∀ {first second : Node}, erasure.node first = erasure.node second →
      erasure.visit first (answer first) = erasure.visit second (answer second)) :
    (Visitor.onVisit name fun node => return answer node).Respects erasure where
  visit {first second _ _ session session'} same _ sessions := by
    show (Except.ok (erasure.visit first (answer first)), erasure.session session) =
      (Except.ok (erasure.visit second (answer second)), erasure.session session')
    rw [answers same, sessions]
  leave {first second _ _ session session'} same _ sessions := by
    show (Except.ok (Transform.replace (erasure.node first)), erasure.session session) =
      (Except.ok (Transform.replace (erasure.node second)), erasure.session session')
    rw [same, sessions]

end Verbatim
