import Verbatim.Proofs.Traversal.Changes
import Verbatim.Traversal.Walk

/-! The steps of a traversal: to which result and which state each part of it leads from a given
state. The list that is rebuilt and the parent that hooks see are brought up to date only when
something changes; that they are nevertheless always what the children so far have become is shown
here once, and everything else is about the list of what has become of the children. -/

namespace Verbatim

namespace WalkState

def showing (state : WalkState) (node : Node) : WalkState :=
  { state with trail := { state.trail with here := node } }

theorem showing_of_here {state : WalkState} {node : Node} (here : state.trail.here = node) :
    state.showing node = state := by
  subst here
  rfl

/-- The state in which the walk of a child begins. -/
def down (state : WalkState) (child : Node) : WalkState :=
  { state with
    trail := state.trail.down child,
    session := { state.session with board := state.session.board.enter } }

/-- The state after the walk of a child, with the trail of its parent. -/
def back (state : WalkState) (trail : Trail) : WalkState :=
  { state with trail, session := { state.session with board := state.session.board.leave } }

/-- The state after a hook. -/
def after (state : WalkState) (session : Session) (call : HookCall) : WalkState :=
  { state with session, calls := call :: state.calls }

def stopping (state : WalkState) : WalkState := { state with stopped := true }

section

variable (state : WalkState) (node : Node) (trail : Trail)

@[simp] theorem stopped_showing : (state.showing node).stopped = state.stopped := rfl

@[simp] theorem stopped_back : (state.back trail).stopped = state.stopped := rfl

end

end WalkState

namespace Walk

variable {α β : Type} {state after : WalkState}

/-! ## Sequences -/

/-- What follows on a run that has a result. -/
def followed (ran : Except WalkError α × WalkState)
    (next : α → WalkState → Except WalkError β × WalkState) : Except WalkError β × WalkState :=
  match ran with
  | (.ok value, after) => next value after
  | (.error error, after) => (.error error, after)

section

variable {next : α → WalkState → Except WalkError β × WalkState}

@[simp] theorem followed_ok (value : α) (after : WalkState) :
    followed (.ok value, after) next = next value after := rfl

@[simp] theorem followed_error (error : WalkError) (after : WalkState) :
    followed (.error error, after) next = (.error error, after) := rfl

end

@[simp] theorem runAt_pure (value : α) (state : WalkState) :
    runAt (pure value) state = (.ok value, state) := rfl

@[simp] theorem runAt_throw (error : WalkError) (state : WalkState) :
    runAt (throw error : WalkM α) state = (.error error, state) := rfl

theorem runAt_bind (first : WalkM α) (next : α → WalkM β) (state : WalkState) :
    runAt (first >>= next) state = followed (runAt first state) fun value =>
      runAt (next value) := by
  simp only [runAt, ExceptT.run_bind, StateT.run_bind]
  rcases first.run.run state with ⟨_ | _, after⟩ <;> rfl

theorem runAt_bind_ok {first : WalkM α} {next : α → WalkM β} {value : α}
    (ran : runAt first state = (.ok value, after)) :
    runAt (first >>= next) state = runAt (next value) after := by
  rw [runAt_bind, ran, followed_ok]

/-! ## Single steps -/

@[simp] theorem runAt_isStopped (state : WalkState) :
    runAt isStopped state = (.ok state.stopped, state) := rfl

@[simp] theorem runAt_showHere (node : Node) (state : WalkState) :
    runAt (showHere node) state = (.ok (), state.showing node) := rfl

@[simp] theorem mapError_ok {ε δ : Type} (value : α) (located : ε → δ) :
    (Except.ok value).mapError located = .ok value := rfl

@[simp] theorem mapError_error {ε δ : Type} (error : ε) (located : ε → δ) :
    (Except.error error : Except ε α).mapError located = .error (located error) := rfl

theorem runAt_call (toHookCall : Call α → HookCall) (node : Node) (hook : HookM α)
    (state : WalkState) :
    runAt (call toHookCall node hook) state =
      (((hook state.trail).run.run state.session).1.mapError (.atNode node),
        state.after ((hook state.trail).run.run state.session).2
          (toHookCall ⟨node, state.trail, state.session,
            ((hook state.trail).run.run state.session).1⟩)) := by
  have atState : runAt (get : WalkM WalkState) state = (.ok state, state) := rfl
  rw [call, runAt_bind_ok atState]
  rcases (hook state.trail).run.run state.session with ⟨error | value, session⟩ <;> rfl

theorem runAt_call_ok {toHookCall : Call α → HookCall} {node : Node} {hook : HookM α} {value : α}
    (ran : runAt (call toHookCall node hook) state = (.ok value, after)) :
    ∃ session, (hook state.trail).run.run state.session = (.ok value, session) ∧
      after = state.after session (toHookCall ⟨node, state.trail, state.session, .ok value⟩) := by
  rw [runAt_call] at ran
  rcases answered : (hook state.trail).run.run state.session with ⟨error | answer, session⟩
  · rw [answered] at ran
    cases ran
  · rw [answered] at ran
    cases ran
    exact ⟨session, rfl, rfl⟩

def refusal? (limits : WalkLimits) (session : Session) : Option VisitError :=
  if session.cancelled then some .cancelled else if limits.expired then some .timedOut else none

theorem runAt_check (limits : WalkLimits) (node : Node) (state : WalkState) :
    runAt (check limits node) state =
      match refusal? limits state.session with
      | some error => (.error (.atNode node error), state)
      | none => (.ok (), state) := by
  have cancelled : runAt isCancelled state = (.ok state.session.cancelled, state) := rfl
  rw [check, runAt_bind_ok cancelled, refusal?]
  cases state.session.cancelled with
  | true => rfl
  | false => cases limits.expired <;> rfl

theorem runAt_below (child : Node) (action : WalkM α) (state : WalkState) :
    runAt (below child action) state =
      followed (runAt action (state.down child)) fun value after =>
        (.ok value, after.back state.trail) := by
  show runAt (action >>= _) (state.down child) = _
  rw [runAt_bind]
  rcases runAt action (state.down child) with ⟨_ | _, after⟩ <;> rfl

/-! ## Children -/

def rebuiltBy (parent : Node) (transforms : List Transform) : Option (List Node) :=
  if transforms.all (·.isKeep) then none else some (parent.produced transforms)

def changedBy (parent : Node) (transforms : List Transform) : Option (List Node) :=
  if transforms.all (·.isKeep) then none else some (parent.childrenAfter transforms)

/-- Go through children for what becomes of them. -/
def goThrough (walkChild : Node → WalkM Transform) (parent : Node) :
    List Transform → List Node → WalkM (List Transform)
  | transforms, [] => return transforms
  | transforms, child :: rest => do
    if ← isStopped then return transforms
    else
      let transform ← below child (walkChild child)
      showHere (parent.after (transforms ++ [transform]))
      goThrough walkChild parent (transforms ++ [transform]) rest

section

variable {walkChild : Node → WalkM Transform} {parent child : Node} {rest : List Node}
  {transforms : List Transform} {transform : Transform}

theorem rebuiltBy_getD (parent : Node) (transforms : List Transform) :
    (rebuiltBy parent transforms).getD (parent.children.take transforms.length) =
      parent.produced transforms := by
  rw [rebuiltBy]
  split
  case isTrue kept => exact (Node.produced_of_all_isKeep kept).symm
  case isFalse => rfl

theorem rebuiltBy_concat_keep (next : parent.children.drop transforms.length = child :: rest) :
    (rebuiltBy parent transforms).map (· ++ [child]) =
      rebuiltBy parent (transforms ++ [.keep]) := by
  rw [rebuiltBy, rebuiltBy, List.all_append, Node.produced_concat next]
  cases transforms.all (·.isKeep) <;> rfl

theorem runAt_takeIn (next : parent.children.drop transforms.length = child :: rest)
    (here : state.trail.here = parent.after transforms) (transform : Transform) :
    runAt (takeIn parent transforms.length (rebuiltBy parent transforms) child transform) state =
      (.ok (rebuiltBy parent (transforms ++ [transform])),
        state.showing (parent.after (transforms ++ [transform]))) := by
  have changes (changed : transform.isKeep = false) :
      rebuiltBy parent (transforms ++ [transform]) =
          some (parent.produced transforms ++ transform.nodes child) ∧
        parent.after (transforms ++ [transform]) =
          parent.withChildren (parent.produced transforms ++ transform.nodes child ++
            parent.children.drop (transforms.length + 1)) := by
    have all : (transforms ++ [transform]).all (·.isKeep) = false := by
      rw [List.all_append, List.all_cons, changed, Bool.false_and, Bool.and_false]
    rw [rebuiltBy, Node.after, all, Node.produced_concat next, Node.childrenAfter_concat next,
      Node.drop_of_drop_eq_cons next]
    exact ⟨rfl, rfl⟩
  cases transform with
  | keep =>
      rw [Node.after_concat_keep next, WalkState.showing_of_here here,
        ← rebuiltBy_concat_keep next]
      rfl
  | replace node =>
      rw [(changes rfl).1, (changes rfl).2, ← rebuiltBy_getD]
      rfl
  | splice nodes =>
      rw [(changes rfl).1, (changes rfl).2, ← rebuiltBy_getD]
      rfl

theorem runAt_goThrough_stopped (stopped : state.stopped = true) (rest : List Node) :
    runAt (goThrough walkChild parent transforms rest) state = (.ok transforms, state) := by
  cases rest with
  | nil => rfl
  | cons child rest =>
      rw [goThrough, runAt_bind_ok (runAt_isStopped state), stopped]
      rfl

theorem runAt_goThrough_cons (going : state.stopped = false) (child : Node) (rest : List Node) :
    runAt (goThrough walkChild parent transforms (child :: rest)) state =
      followed (runAt (walkChild child) (state.down child)) fun transform after =>
        runAt (goThrough walkChild parent (transforms ++ [transform]) rest)
          ((after.back state.trail).showing (parent.after (transforms ++ [transform]))) := by
  rw [goThrough, runAt_bind_ok (runAt_isStopped state), going]
  simp only [Bool.false_eq_true, if_false]
  rw [runAt_bind, runAt_below]
  rcases runAt (walkChild child) (state.down child) with ⟨_ | _, after⟩ <;> rfl

/-- The children that are given back are what the first ones have become, and then the others. -/
theorem runAt_walkChildren (rest : List Node)
    (next : parent.children.drop transforms.length = rest)
    (here : state.trail.here = parent.after transforms) :
    runAt (walkChildren walkChild parent transforms.length (rebuiltBy parent transforms) rest)
        state =
      followed (runAt (goThrough walkChild parent transforms rest) state) fun all after =>
        (.ok (changedBy parent all), after) := by
  induction rest generalizing transforms state with
  | nil =>
      have same : rebuiltBy parent transforms = changedBy parent transforms := by
        rw [rebuiltBy, changedBy, Node.childrenAfter, next, List.append_nil]
      rw [walkChildren, goThrough, same]
      rfl
  | cons child rest induction =>
      rw [walkChildren, runAt_bind_ok (runAt_isStopped state)]
      cases going : state.stopped with
      | true =>
          have same : (rebuiltBy parent transforms).map
              (· ++ parent.children.drop transforms.length) = changedBy parent transforms := by
            rw [rebuiltBy, changedBy, Node.childrenAfter]
            cases transforms.all (·.isKeep) <;> rfl
          rw [runAt_goThrough_stopped going]
          exact congrArg (fun children => (Except.ok children, state)) same
      | false =>
          simp only [Bool.false_eq_true, if_false]
          rw [runAt_goThrough_cons going, runAt_bind, runAt_below]
          rcases runAt (walkChild child) (state.down child) with ⟨error | transform, after⟩
          · rfl
          · simp only [followed_ok]
            have hereAgain : (after.back state.trail).trail.here = parent.after transforms := here
            rw [runAt_bind_ok (runAt_takeIn next hereAgain transform)]
            have later := Node.drop_of_drop_eq_cons next
            rw [← List.length_singleton (a := transform), ← List.length_append] at later ⊢
            exact induction later rfl

theorem goThrough_trail {rest : List Node} {all : List Transform}
    (here : state.trail.here = parent.after transforms)
    (ran : runAt (goThrough walkChild parent transforms rest) state = (.ok all, after)) :
    after.trail = ⟨parent.after all, state.trail.above⟩ := by
  induction rest generalizing transforms state with
  | nil =>
      cases ran
      rw [← here]
  | cons child rest induction =>
      cases going : state.stopped with
      | true =>
          rw [runAt_goThrough_stopped going] at ran
          cases ran
          rw [← here]
      | false =>
          rw [runAt_goThrough_cons going] at ran
          rcases walked : runAt (walkChild child) (state.down child) with
            ⟨error | transform, middle⟩
          · rw [walked] at ran
            cases ran
          · rw [walked] at ran
            have later : runAt (goThrough walkChild parent (transforms ++ [transform]) rest)
                ((middle.back state.trail).showing (parent.after (transforms ++ [transform]))) =
                (.ok all, after) := ran
            rw [induction rfl later]
            rfl

end

/-! ## Nodes -/

section

variable {visitor : Visitor} {walkChild : Node → WalkM Transform} {node : Node} {changed : Bool}

theorem drop_length_nil (nodes : List Node) :
    nodes.drop ([] : List Transform).length = nodes := rfl

theorem runAt_finishNode_skip :
    runAt (finishNode visitor walkChild node changed false) state =
      runAt (lookAgain visitor node (.ofChange changed node)) (state.showing node) := rfl

theorem runAt_rebuild (here : state.trail.here = node) :
    runAt (rebuild walkChild node) state =
      followed (runAt (goThrough walkChild node [] node.children) state) fun transforms after =>
        (.ok (if transforms.all (·.isKeep) then none else some (node.after transforms)),
          after) := by
  have children : runAt (walkChildren walkChild node 0 none node.children) state =
      followed (runAt (goThrough walkChild node [] node.children) state)
        fun all after => (.ok (changedBy node all), after) :=
    runAt_walkChildren node.children (drop_length_nil node.children) here
  rw [rebuild, runAt_bind, children]
  rcases ran : runAt (goThrough walkChild node [] node.children) state with
    ⟨error | transforms, after⟩
  · rfl
  · simp only [followed_ok]
    rw [changedBy]
    cases kept : transforms.all (·.isKeep) with
    | true => rfl
    | false =>
        have same : node.withChildren (node.childrenAfter transforms) = node.after transforms := by
          rw [Node.after, kept]
          rfl
        have shown : after.showing (node.after transforms) = after :=
          WalkState.showing_of_here (congrArg Trail.here (goThrough_trail here ran))
        show (_, after.showing (node.withChildren (node.childrenAfter transforms))) = _
        rw [same, shown]
        rfl

theorem runAt_finishNode_descend :
    runAt (finishNode visitor walkChild node changed true) state =
      followed (runAt (goThrough walkChild node [] node.children) (state.showing node))
        fun transforms after =>
          if after.stopped then
            (.ok (.ofChange (changed || !transforms.all (·.isKeep)) (node.after transforms)), after)
          else
            runAt (lookAgain visitor (node.after transforms)
              (.ofChange (changed || !transforms.all (·.isKeep)) (node.after transforms)))
                after := by
  have shown : (state.showing node).trail.here = node := rfl
  rw [finishNode, runAt_bind_ok (runAt_showHere node state), if_pos rfl, runAt_bind,
    runAt_rebuild shown]
  rcases runAt (goThrough walkChild node [] node.children) (state.showing node) with
    ⟨error | transforms, after⟩
  · rfl
  · have current : (if transforms.all (·.isKeep) then none else some (node.after transforms)).getD
        node = node.after transforms := by
      rw [Node.after]
      cases transforms.all (·.isKeep) <;> rfl
    have isSome : (if transforms.all (·.isKeep) then none
        else some (node.after transforms)).isSome = !transforms.all (·.isKeep) := by
      cases transforms.all (·.isKeep) <;> rfl
    simp only [followed_ok, current, isSome]
    rw [runAt_bind_ok (runAt_isStopped after)]
    cases after.stopped <;> rfl

theorem runAt_walkNode_succ {limits : WalkLimits} {depth : Nat} :
    runAt (walkNode visitor limits (depth + 1) node) state =
      match refusal? limits state.session with
      | some error => (.error (.atNode node error), state)
      | none =>
        followed (runAt (visit visitor node) state) fun answer after =>
          if answer.control = .stop then (.ok answer.transform, after.stopping)
          else
            match answer.transform.node? node with
            | none => (.ok answer.transform, after)
            | some current =>
              runAt (finishNode visitor (walkNode visitor limits depth) current
                (!answer.transform.isKeep) (answer.control = .descend)) after := by
  rw [walkNode, runAt_bind, runAt_check]
  cases refusal? limits state.session with
  | some error => rfl
  | none =>
      simp only [followed_ok]
      rw [runAt_bind]
      rcases runAt (visit visitor node) state with ⟨error | ⟨transform, control⟩, after⟩
      · rfl
      · simp only [followed_ok]
        by_cases stops : control = .stop
        · rw [if_pos stops, if_pos stops]
          rfl
        · rw [if_neg stops, if_neg stops]
          cases transform <;> rfl

theorem runAt_lookAgain_followed {node : Node} {result : Transform} :
    runAt (lookAgain visitor node result) state =
      followed (runAt (leave visitor node) state) fun answer after =>
        (.ok (answer.over result), after) := by
  rw [lookAgain, runAt_bind]
  congr
  funext answer after
  cases answer <;> rfl

theorem runAt_lookAgain {node : Node} {answer : Except VisitError Transform} {session : Session}
    (answered : (visitor.leave node state.trail).run.run state.session = (answer, session))
    (result : Transform) :
    runAt (lookAgain visitor node result) state =
      ((answer.map (·.over result)).mapError (.atNode node),
        state.after session (.leave ⟨node, state.trail, state.session, answer⟩)) := by
  rw [runAt_lookAgain_followed, leave, runAt_call, answered]
  cases answer <;> rfl

end

/-- The tree that there is in the end when this becomes of the root. -/
def atRoot (root : Node) (transform : Transform) : Except WalkError Node :=
  match transform.node? root with
  | some node => .ok node
  | none => .error (.atNode root .rootSpliced)

end Walk

theorem walk_fst (visitor : Visitor) (limits : WalkLimits) (root : Node) (session : Session) :
    (walk visitor limits root session).1 =
      (Walk.walkRoot visitor limits root session).1.bind fun
        | .keep => .ok none
        | .replace node => .ok (some node)
        | .splice _ => .error (.atNode root .rootSpliced) := rfl

theorem walk_fst_map (visitor : Visitor) (limits : WalkLimits) (root : Node) (session : Session) :
    (walk visitor limits root session).1.map (·.getD root) =
      (Walk.walkRoot visitor limits root session).1.bind (Walk.atRoot root) := by
  rw [walk_fst]
  rcases (Walk.walkRoot visitor limits root session).1 with error | ⟨⟩ | _ | _ <;> rfl

end Verbatim
