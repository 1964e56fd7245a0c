import Verbatim.Proofs.Traversal.Erasing

/-! A traversal that shares nothing: every node that is entered is made anew from what its children
have become. To someone who looks away from where nodes were read, it does the same as the one that
keeps what did not change. -/

namespace Verbatim

namespace PlainWalk

open Walk

/-- Go through children; `produced` stands for the earlier ones. -/
def walkChildren (walkChild : Node → WalkM Transform) (parent : Node) :
    (produced : List Node) → List Node → WalkM (List Node)
  | produced, [] => return produced
  | produced, child :: rest => do
    if ← isStopped then return produced ++ child :: rest
    else
      let transform ← below child (walkChild child)
      let produced := produced ++ transform.nodes child
      showHere (parent.withChildren (produced ++ rest))
      walkChildren walkChild parent produced rest

def lookAgain (visitor : Visitor) (node : Node) : WalkM Transform := do
  match ← leave visitor node with
  | .keep => return .replace node
  | transform => return transform

def finishNode (visitor : Visitor) (walkChild : Node → WalkM Transform) (node : Node)
    (descend : Bool) : WalkM Transform := do
  showHere node
  if descend then
    let rebuilt := node.withChildren (← walkChildren walkChild node [] node.children)
    showHere rebuilt
    if ← isStopped then return .replace rebuilt else lookAgain visitor rebuilt
  else lookAgain visitor node

def walkNode (visitor : Visitor) (limits : WalkLimits) : (depth : Nat) → Node → WalkM Transform
  | 0, node => throw (.atNode node .tooDeep)
  | depth + 1, node => do
    check limits node
    let answer ← visit visitor node
    if answer.control = .stop then
      stop
      return answer.transform
    else
      match answer.transform.node? node with
      | none => return answer.transform
      | some current =>
        finishNode visitor (walkNode visitor limits depth) current (answer.control = .descend)

def walkRoot (visitor : Visitor) (limits : WalkLimits) (root : Node) (session : Session) :
    Except WalkError Transform × WalkState :=
  runAt (walkNode visitor limits (root.height + limits.spareDepth) root) (start root session)

def walk (visitor : Visitor) (limits : WalkLimits) (root : Node) (session : Session) :
    Except WalkError Node × Session :=
  let (result, state) := walkRoot visitor limits root session
  (result.bind (atRoot root), state.session)

def hookCalls (visitor : Visitor) (limits : WalkLimits) (root : Node) (session : Session) :
    List HookCall :=
  (walkRoot visitor limits root session).2.calls.reverse

/-! ## Its steps -/

section

variable {visitor : Visitor} {walkChild : Node → WalkM Transform} {parent node : Node}
  {produced : List Node} {state : WalkState}

theorem runAt_walkChildren_stopped (stopped : state.stopped = true) (rest : List Node) :
    runAt (walkChildren walkChild parent produced rest) state =
      (.ok (produced ++ rest), state) := by
  cases rest with
  | nil => rw [walkChildren, List.append_nil, runAt_pure]
  | cons child rest =>
      rw [walkChildren, runAt_bind_ok (runAt_isStopped state), stopped]
      rfl

theorem runAt_walkChildren_cons (going : state.stopped = false) (child : Node) (rest : List Node) :
    runAt (walkChildren walkChild parent produced (child :: rest)) state =
      followed (runAt (walkChild child) (state.down child)) fun transform after =>
        runAt (walkChildren walkChild parent (produced ++ transform.nodes child) rest)
          ((after.back state.trail).showing
            (parent.withChildren (produced ++ transform.nodes child ++ rest))) := by
  rw [walkChildren, runAt_bind_ok (runAt_isStopped state), going]
  simp only [Bool.false_eq_true, if_false]
  rw [runAt_bind, runAt_below]
  rcases runAt (walkChild child) (state.down child) with ⟨_ | _, after⟩ <;> rfl

theorem runAt_lookAgain_followed :
    runAt (lookAgain visitor node) state =
      followed (runAt (leave visitor node) state) fun answer after =>
        (.ok (answer.over (.replace node)), after) := by
  rw [lookAgain, runAt_bind]
  congr
  funext answer after
  cases answer <;> rfl

theorem runAt_finishNode_skip :
    runAt (finishNode visitor walkChild node false) state =
      runAt (lookAgain visitor node) (state.showing node) := rfl

theorem runAt_finishNode_descend :
    runAt (finishNode visitor walkChild node true) state =
      followed (runAt (walkChildren walkChild node [] node.children) (state.showing node))
        fun children after =>
          if after.stopped then
            (.ok (.replace (node.withChildren children)),
              after.showing (node.withChildren children))
          else
            runAt (lookAgain visitor (node.withChildren children))
              (after.showing (node.withChildren children)) := by
  rw [finishNode, runAt_bind_ok (runAt_showHere node state), if_pos rfl, runAt_bind]
  rcases runAt (walkChildren walkChild node [] node.children) (state.showing node) with
    ⟨error | children, after⟩
  · rfl
  · rw [followed_ok, followed_ok, runAt_bind_ok (runAt_showHere _ after),
      runAt_bind_ok (runAt_isStopped _), WalkState.stopped_showing]
    cases after.stopped <;> rfl

theorem runAt_walkNode_succ {limits : WalkLimits} {depth : Nat} :
    runAt (walkNode visitor limits (depth + 1) node) state =
      match refusal? limits state.session with
      | some error => (.error (.atNode node error), state)
      | none =>
        followed (runAt (visit visitor node) state) fun answer after =>
          if answer.control = .stop then (.ok answer.transform, after.stopping)
          else
            match answer.transform.node? node with
            | none => (.ok answer.transform, after)
            | some current =>
              runAt (finishNode visitor (walkNode visitor limits depth) current
                (answer.control = .descend)) after := by
  rw [walkNode, runAt_bind, runAt_check]
  cases refusal? limits state.session with
  | some error => rfl
  | none =>
      rw [followed_ok, runAt_bind]
      rcases runAt (visit visitor node) state with ⟨error | answer, after⟩
      · rfl
      · simp only [followed_ok]
        by_cases stops : answer.control = .stop
        · rw [if_pos stops, if_pos stops]
          rfl
        · rw [if_neg stops, if_neg stops]
          cases answer.transform.node? node <;> rfl

end

end PlainWalk

/-! ## Both do the same -/

namespace Erasure

open Walk

variable {erasure : Erasure} {visitor : Visitor} {state state' : WalkState}
    {node first second : Node}

/-- Two walks of children that do the same wherever they look the same. -/
def SameWalks (erasure : Erasure) (walkChild walkOther : Node → WalkM Transform) : Prop :=
  ∀ {first second : Node} {state state' : WalkState}, erasure.node first = erasure.node second →
    erasure.state state = erasure.state state' →
    Same erasure
      (fun transform other => erasure.transform first transform = erasure.transform second other)
      (runAt (walkChild first) state) (runAt (walkOther second) state')

theorem goThrough_same {walkChild walkOther : Node → WalkM Transform}
    (each : SameWalks erasure walkChild walkOther) {parent other : Node}
    (sameParent : erasure.node parent = erasure.node other) {transforms : List Transform}
    {rest produced others : List Node} (next : parent.children.drop transforms.length = rest)
    (sameProduced : erasure.nodes (parent.produced transforms) = erasure.nodes produced)
    (sameRest : erasure.nodes rest = erasure.nodes others)
    (states : erasure.state state = erasure.state state') :
    Same erasure
      (fun all children => erasure.nodes (parent.childrenAfter all) = erasure.nodes children)
      (runAt (goThrough walkChild parent transforms rest) state)
      (runAt (PlainWalk.walkChildren walkOther other produced others) state') := by
  induction rest generalizing transforms produced others state state' with
  | nil =>
      cases others with
      | cons first others => cases sameRest
      | nil =>
          refine .ok ?_ states
          rw [Node.childrenAfter, next, List.append_nil, sameProduced]
  | cons child rest induction =>
      cases others with
      | nil => cases sameRest
      | cons first others =>
          cases going : state.stopped with
          | true =>
              rw [runAt_goThrough_stopped going,
                PlainWalk.runAt_walkChildren_stopped (stopped_of_state states ▸ going)]
              refine .ok ?_ states
              rw [Node.childrenAfter, next, nodes_append, nodes_append, sameProduced, sameRest]
          | false =>
              rcases List.cons.inj sameRest with ⟨sameChild, sameRest⟩
              rw [runAt_goThrough_cons going,
                PlainWalk.runAt_walkChildren_cons (stopped_of_state states ▸ going)]
              refine (each sameChild (state_down states sameChild)).follow ?_
              intro transform transform' after after' agrees statesAfter
              have sameNow : erasure.nodes (parent.produced (transforms ++ [transform])) =
                  erasure.nodes (produced ++ transform'.nodes first) := by
                rw [Node.produced_concat next, nodes_append, nodes_append, sameProduced,
                  nodes_of_transform agrees]
              have later : parent.children.drop (transforms ++ [transform]).length = rest := by
                rw [List.length_append, List.length_singleton]
                exact Node.drop_of_drop_eq_cons next
              -- the parent may not have been made anew here, which is not seen
              have shown : erasure.node (parent.after (transforms ++ [transform])) =
                  erasure.node
                    (other.withChildren (produced ++ transform'.nodes first ++ others)) := by
                rw [node_after]
                apply node_withChildren_of_node sameParent
                rw [Node.childrenAfter, later, nodes_append, nodes_append, sameNow, sameRest]
              exact induction later sameNow sameRest
                (state_showing (state_back statesAfter (trail_of_state states)) shown)

theorem lookAgain_same (respects : visitor.Respects erasure) {result : Transform}
    (stands : erasure.transform node result = .replace (erasure.node first))
    (same : erasure.node first = erasure.node second)
    (states : erasure.state state = erasure.state state') (given : Node) :
    Same erasure
      (fun transform other => erasure.transform node transform = erasure.transform given other)
      (runAt (lookAgain visitor first result) state)
      (runAt (PlainWalk.lookAgain visitor second) state') := by
  have answers := respects.leave same (trail_of_state states) (session_of_state states)
  rw [runAt_lookAgain_followed, PlainWalk.runAt_lookAgain_followed]
  refine (runAt_call_same (fun _ => rfl) answers same states).follow ?_
  intro answer other after after' agrees statesAfter
  refine .ok ?_ statesAfter
  rw [transform_over stands, transform_over rfl, agrees]

section

/-! `node` is the node that was given, `first` or `second` the one that its first look lets go
on. -/

variable {changed : Bool} (unchanged : changed = false → first = node)
  (same : erasure.node first = erasure.node second)

include unchanged same in
/-- The end of the walk of a node whose children are gone through. -/
theorem finished_same (respects : visitor.Respects erasure) {transforms : List Transform}
    {children : List Node}
    (agrees : erasure.nodes (first.childrenAfter transforms) = erasure.nodes children)
    (here : state.trail.here = first.after transforms)
    (states : erasure.state state = erasure.state state') (given : Node) :
    Same erasure
      (fun transform other => erasure.transform node transform = erasure.transform given other)
      (if state.stopped then
        (.ok (.ofChange (changed || !transforms.all (·.isKeep)) (first.after transforms)), state)
      else
        runAt (lookAgain visitor (first.after transforms)
          (.ofChange (changed || !transforms.all (·.isKeep)) (first.after transforms))) state)
      (if state'.stopped then
        (.ok (.replace (second.withChildren children)),
          state'.showing (second.withChildren children))
      else
        runAt (PlainWalk.lookAgain visitor (second.withChildren children))
          (state'.showing (second.withChildren children))) := by
  have sameNow : erasure.node (first.after transforms) =
      erasure.node (second.withChildren children) := by
    rw [node_after]
    exact node_withChildren_of_node same agrees
  have stands : erasure.transform node (.ofChange (changed || !transforms.all (·.isKeep))
      (first.after transforms)) = .replace (erasure.node (first.after transforms)) := by
    apply transform_ofChange
    intro still
    rw [Bool.or_eq_false_iff, Bool.not_eq_false'] at still
    rw [Node.after, if_pos still.2, unchanged still.1]
  have shown := state_showing states sameNow
  rw [WalkState.showing_of_here here] at shown
  rw [stopped_of_state states]
  split
  · refine .ok ?_ shown
    rw [stands, sameNow]
    rfl
  · exact lookAgain_same respects stands sameNow shown given

include unchanged same in
theorem finishNode_same (respects : visitor.Respects erasure)
    {walkChild walkOther : Node → WalkM Transform} (each : SameWalks erasure walkChild walkOther)
    (states : erasure.state state = erasure.state state') (descend : Bool) (given : Node) :
    Same erasure
      (fun transform other => erasure.transform node transform = erasure.transform given other)
      (runAt (finishNode visitor walkChild first changed descend) state)
      (runAt (PlainWalk.finishNode visitor walkOther second descend) state') := by
  have showing := state_showing states same
  cases descend with
  | false =>
      rw [runAt_finishNode_skip, PlainWalk.runAt_finishNode_skip]
      exact lookAgain_same respects (transform_ofChange unchanged) same showing given
  | true =>
      rw [runAt_finishNode_descend, PlainWalk.runAt_finishNode_descend]
      have below : Same erasure _
          (runAt (goThrough walkChild first [] first.children) (state.showing first))
          (runAt (PlainWalk.walkChildren walkOther second [] second.children)
            (state'.showing second)) :=
        goThrough_same each same (drop_length_nil first.children) (by simp [Node.produced])
          (children_of_node same) showing
      generalize runAt (PlainWalk.walkChildren walkOther second [] second.children)
        (state'.showing second) = plain at below ⊢
      rcases gone : runAt (goThrough walkChild first [] first.children) (state.showing first) with
        ⟨error | transforms, after⟩
      · rw [gone] at below
        cases below with
        | error errors statesAfter => exact .error errors statesAfter
      · rw [gone] at below
        cases below with
        | ok agrees statesAfter =>
            have here := congrArg Trail.here (goThrough_trail rfl gone)
            exact finished_same unchanged same respects agrees here statesAfter given

end

theorem walkNode_same (respects : visitor.Respects erasure) (limits : WalkLimits) (depth : Nat) :
    SameWalks erasure (walkNode visitor limits depth)
      (PlainWalk.walkNode visitor limits depth) := by
  induction depth with
  | zero =>
      intro first second state state' same states
      exact .error (error_atNode same .tooDeep) states
  | succ depth induction =>
      intro first second state state' same states
      have answers := respects.visit same (trail_of_state states) (session_of_state states)
      rw [runAt_walkNode_succ, PlainWalk.runAt_walkNode_succ, refusal?_of_state limits states]
      cases refusal? limits state'.session with
      | some error => exact .error (error_atNode same error) states
      | none =>
          refine (runAt_call_same (fun _ => rfl) answers same states).follow ?_
          intro answer other after after' agrees statesAfter
          rcases answer with ⟨transform, control⟩
          rcases other with ⟨transform', control'⟩
          rcases Visit.mk.inj agrees with ⟨sameTransform, rfl⟩
          simp only
          split
          · exact .ok sameTransform (state_stopping statesAfter)
          · have goesOn := node?_of_transform sameTransform
            cases current : transform.node? first with
            | none =>
                rw [current] at goesOn
                rw [Option.map_eq_none_iff.1 goesOn.symm]
                exact .ok sameTransform statesAfter
            | some node =>
                rw [current] at goesOn
                rcases Option.map_eq_some_iff.1 goesOn.symm with ⟨node', current', sameNode⟩
                rw [current']
                refine finishNode_same ?_ sameNode.symm respects induction statesAfter _ second
                intro unchanged
                rw [Bool.not_eq_false'] at unchanged
                rw [Transform.eq_keep_of_isKeep unchanged] at current
                exact (Option.some.inj current).symm

/-- How a traversal ends, for someone who looks away. -/
def outcome (erasure : Erasure) (result : Except WalkError Node) : Except WalkError Node :=
  (result.map erasure.node).mapError erasure.error

theorem atRoot_same {transform other : Transform}
    (same : erasure.node first = erasure.node second)
    (agrees : erasure.transform first transform = erasure.transform second other) :
    erasure.outcome (atRoot first transform) = erasure.outcome (atRoot second other) := by
  have goesOn := node?_of_transform agrees
  rw [atRoot, atRoot]
  cases here : transform.node? first with
  | none =>
      rw [here] at goesOn
      rw [Option.map_eq_none_iff.1 goesOn.symm]
      exact congrArg Except.error (error_atNode same .rootSpliced)
  | some node =>
      rw [here] at goesOn
      rcases Option.map_eq_some_iff.1 goesOn.symm with ⟨node', there, sameNode⟩
      rw [there]
      exact congrArg Except.ok sameNode.symm

section

variable {root root' : Node} {session session' : Session} (limits : WalkLimits)

theorem walkRoot_same (respects : visitor.Respects erasure)
    (same : erasure.node root = erasure.node root')
    (sessions : erasure.session { session with board := .empty } =
      erasure.session { session' with board := .empty }) :
    Same erasure
      (fun transform other => erasure.transform root transform = erasure.transform root' other)
      (walkRoot visitor limits root session)
      (PlainWalk.walkRoot visitor limits root' session') := by
  have states : erasure.state (start root session) = erasure.state (start root' session') := by
    have started (root : Node) (session : Session) : erasure.state (start root session) =
        ⟨erasure.session { session with board := .empty }, ⟨erasure.node root, []⟩, false, []⟩ :=
      rfl
    rw [started, started, same, sessions]
  rw [walkRoot, PlainWalk.walkRoot, height_of_node same]
  exact walkNode_same respects limits _ same states

theorem walk_same (respects : visitor.Respects erasure)
    (same : erasure.node root = erasure.node root')
    (sessions : erasure.session { session with board := .empty } =
      erasure.session { session' with board := .empty }) :
    erasure.outcome ((walk visitor limits root session).1.map (·.getD root)) =
        erasure.outcome (PlainWalk.walk visitor limits root' session').1 ∧
      erasure.session (walk visitor limits root session).2 =
        erasure.session (PlainWalk.walk visitor limits root' session').2 ∧
      (hookCalls visitor limits root session).map erasure.hookCall =
        (PlainWalk.hookCalls visitor limits root' session').map erasure.hookCall := by
  have runs := walkRoot_same limits respects same sessions
  refine ⟨?_, congrArg (·.session) runs.state, ?_⟩
  · have plain : (PlainWalk.walk visitor limits root' session').1 =
        (PlainWalk.walkRoot visitor limits root' session').1.bind (atRoot root') := rfl
    rw [walk_fst_map, plain]
    generalize walkRoot visitor limits root session = run at runs ⊢
    generalize PlainWalk.walkRoot visitor limits root' session' = plainRun at runs ⊢
    cases runs with
    | ok agrees _ => exact atRoot_same same agrees
    | error errors _ => exact congrArg Except.error errors
  · have calls : (walkRoot visitor limits root session).2.calls.map erasure.hookCall =
        (PlainWalk.walkRoot visitor limits root' session').2.calls.map erasure.hookCall :=
      congrArg WalkState.calls runs.state
    rw [hookCalls, PlainWalk.hookCalls, List.map_reverse, List.map_reverse, calls]

theorem walks_same (respects : visitor.Respects erasure)
    (same : erasure.node root = erasure.node root')
    (sessions : erasure.session { session with board := .empty } =
      erasure.session { session' with board := .empty }) :
    erasure.outcome ((walk visitor limits root session).1.map (·.getD root)) =
        erasure.outcome ((walk visitor limits root' session').1.map (·.getD root')) ∧
      erasure.session (walk visitor limits root session).2 =
        erasure.session (walk visitor limits root' session').2 := by
  have first := walk_same limits respects same sessions
  have second : erasure.outcome ((walk visitor limits root' session').1.map (·.getD root')) =
        erasure.outcome (PlainWalk.walk visitor limits root' session').1 ∧
      erasure.session (walk visitor limits root' session').2 =
        erasure.session (PlainWalk.walk visitor limits root' session').2 ∧ _ :=
    walk_same limits respects rfl rfl
  exact ⟨first.1.trans second.1.symm, first.2.1.trans second.2.1.symm⟩

end

end Erasure

end Verbatim
