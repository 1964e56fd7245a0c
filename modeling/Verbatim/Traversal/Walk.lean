import Verbatim.Traversal.Visitor

/-! The traversal of a tree. A parent is rebuilt only when one of its children came back changed,
so a tree in which nothing changes is given back as it was. -/

namespace Verbatim

structure WalkLimits where
  expired : Bool
  /-- How much deeper than the tree what hooks put in may be. -/
  spareDepth : Nat
  deriving DecidableEq, Repr

/-- No limits but on what hooks put in, which might have no end. -/
def WalkLimits.none : WalkLimits := ⟨false, 1000000⟩

structure WalkError where
  error : VisitError
  node : NodeId
  span : Option Span
  start : Option Position
  deriving DecidableEq, Repr

namespace WalkError

def atNode (node : Node) (error : VisitError) : WalkError :=
  ⟨error, node.id, node.origin.map Origin.span, node.origin.map Origin.start⟩

def message (error : WalkError) : String := error.error.message ++ " at " ++ error.node.display

end WalkError

/-- A hook was called: with what, what it could see around the node, and what it answered. -/
structure Call (α : Type) where
  node : Node
  trail : Trail
  session : Session
  answer : Except VisitError α

inductive HookCall where
  | visit (call : Call Visit)
  | leave (call : Call Transform)

structure WalkState where
  session : Session
  /-- Where the traversal is, as hooks see it. The node of a level is set anew when hooks replace it
  and when a child comes back changed. -/
  trail : Trail
  stopped : Bool
  /-- What hooks were called for, last call first. The traversal does not look at it. -/
  calls : List HookCall

abbrev WalkM := ExceptT WalkError (StateM WalkState)

namespace Walk

def runAt (computation : WalkM α) (state : WalkState) : Except WalkError α × WalkState :=
  computation.run.run state

/-- Run a hook where the traversal is; its error is an error at the node that it is called for. -/
def call (toHookCall : Call α → HookCall) (node : Node) (hook : HookM α) : WalkM α := do
  let state ← get
  let (answer, session) := (hook state.trail).run.run state.session
  let calls := toHookCall ⟨node, state.trail, state.session, answer⟩ :: state.calls
  set { state with session, calls }
  match answer with
  | .ok value => return value
  | .error error => throw (.atNode node error)

def visit (visitor : Visitor) (node : Node) : WalkM Visit := call .visit node (visitor.visit node)

def leave (visitor : Visitor) (node : Node) : WalkM Transform :=
  call .leave node (visitor.leave node)

def isStopped : WalkM Bool := return (← get).stopped

def stop : WalkM Unit := modify fun state => { state with stopped := true }

/-- Hooks see this node from now on where the traversal is. -/
def showHere (node : Node) : WalkM Unit :=
  modify fun state => { state with trail := { state.trail with here := node } }

/-- Go down to a child, and come back. -/
def below (child : Node) (action : WalkM α) : WalkM α := do
  let trail := (← get).trail
  modify fun state =>
    { state with
      trail := state.trail.down child,
      session := { state.session with board := state.session.board.enter } }
  let value ← action
  modify fun state =>
    { state with trail, session := { state.session with board := state.session.board.leave } }
  return value

def isCancelled : WalkM Bool := return (← get).session.cancelled

/-- Limits are looked at before every node, a request to end before the time. -/
def check (limits : WalkLimits) (node : Node) : WalkM Unit := do
  if ← isCancelled then throw (.atNode node .cancelled)
  if limits.expired then throw (.atNode node .timedOut)

/-- Take in what has become of the child with the given number. `rebuilt` holds what stands for the
earlier children once one of them has changed. Only a change makes hooks see another parent. -/
def takeIn (parent : Node) (number : Nat) (rebuilt : Option (List Node)) (child : Node) :
    Transform → WalkM (Option (List Node))
  | .keep => return rebuilt.map (· ++ [child])
  | transform => do
    let produced := rebuilt.getD (parent.children.take number) ++ transform.nodes child
    showHere (parent.withChildren (produced ++ parent.children.drop (number + 1)))
    return some produced

/-- Go through the children of a node from the one with the given number on. Nothing is given back
when all children stay the same. -/
def walkChildren (walkChild : Node → WalkM Transform) (parent : Node) :
    (number : Nat) → (rebuilt : Option (List Node)) → List Node → WalkM (Option (List Node))
  | _, rebuilt, [] => return rebuilt
  | number, rebuilt, child :: rest => do
    if ← isStopped then return rebuilt.map (· ++ parent.children.drop number)
    else
      let transform ← below child (walkChild child)
      let rebuilt ← takeIn parent number rebuilt child transform
      walkChildren walkChild parent (number + 1) rebuilt rest

/-- The node with its children walked, if they have changed. -/
def rebuild (walkChild : Node → WalkM Transform) (node : Node) : WalkM (Option Node) := do
  match ← walkChildren walkChild node 0 none node.children with
  | none => return none
  | some children => do
    let rebuilt := node.withChildren children
    showHere rebuilt
    return some rebuilt

/-- The second look at a node, which may also let the result so far stand. -/
def lookAgain (visitor : Visitor) (node : Node) (result : Transform) : WalkM Transform := do
  match ← leave visitor node with
  | .keep => return result
  | transform => return transform

/-- The part of a traversal that is left when the visitor has looked at a node: its children and
its second look. `changed` tells that the node is no longer the one that was given. -/
def finishNode (visitor : Visitor) (walkChild : Node → WalkM Transform) (node : Node)
    (changed descend : Bool) : WalkM Transform := do
  showHere node
  if descend then
    let rebuilt ← rebuild walkChild node
    let current := rebuilt.getD node
    let result := Transform.ofChange (changed || rebuilt.isSome) current
    if ← isStopped then return result else lookAgain visitor current result
  else lookAgain visitor node (Transform.ofChange changed node)

/-- Nodes that a hook splices in are not looked at. -/
def walkNode (visitor : Visitor) (limits : WalkLimits) : (depth : Nat) → Node → WalkM Transform
  | 0, node => throw (.atNode node .tooDeep)
  | depth + 1, node => do
    check limits node
    let answer ← visit visitor node
    if answer.control = .stop then
      stop
      return answer.transform
    else
      let descend := answer.control = .descend
      match answer.transform with
      | .splice nodes => return .splice nodes
      | .keep => finishNode visitor (walkNode visitor limits depth) node false descend
      | .replace current => finishNode visitor (walkNode visitor limits depth) current true descend

/-- The state at the root. Messages of an earlier traversal are gone. -/
def start (root : Node) (session : Session) : WalkState :=
  ⟨{ session with board := .empty }, ⟨root, []⟩, false, []⟩

def walkRoot (visitor : Visitor) (limits : WalkLimits) (root : Node) (session : Session) :
    Except WalkError Transform × WalkState :=
  runAt (walkNode visitor limits (root.height + limits.spareDepth) root) (start root session)

end Walk

/-- Go through a tree. Nothing is given back when the root stays the very node it was. -/
def walk (visitor : Visitor) (limits : WalkLimits) (root : Node) (session : Session) :
    Except WalkError (Option Node) × Session :=
  let (result, state) := Walk.walkRoot visitor limits root session
  (result.bind fun
    | .keep => .ok none
    | .replace node => .ok (some node)
    | .splice _ => .error (.atNode root .rootSpliced), state.session)

/-- The hooks that are called when a tree is gone through, in order. -/
def hookCalls (visitor : Visitor) (limits : WalkLimits) (root : Node) (session : Session) :
    List HookCall :=
  (Walk.walkRoot visitor limits root session).2.calls.reverse

end Verbatim
