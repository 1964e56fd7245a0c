import Verbatim.Traversal.Trail

/-! Visitors look at every node before and after its children and may change it. -/

namespace Verbatim

inductive VisitError where
  | failed (reason : String)
  /-- A traversal must end with one root. -/
  | rootSpliced
  | cancelled
  | timedOut
  | panicked (reason : String)
  /-- The nodes that hooks put in have no end. -/
  | tooDeep
  deriving DecidableEq, Repr

def VisitError.message : VisitError → String
  | failed reason => reason
  | rootSpliced => "the root of a walk cannot be removed or spliced"
  | cancelled => "walk cancelled"
  | timedOut => "walk exceeded its time limit"
  | panicked reason => "visitor panicked: " ++ reason
  | tooDeep => "walk went too deep"

inductive Transform where
  /-- It stays the very node it was. -/
  | keep
  | replace (node : Node)
  /-- Its parent has these nodes instead, perhaps none. -/
  | splice (nodes : List Node)

def Transform.remove : Transform := .splice []

/-- The node that goes on in its place, if there is one. -/
def Transform.node? (node : Node) : Transform → Option Node
  | keep => some node
  | replace other => some other
  | splice _ => none

def Transform.ofChange (changed : Bool) (node : Node) : Transform :=
  if changed then .replace node else .keep

def Transform.nodes (node : Node) : Transform → List Node
  | keep => [node]
  | replace other => [other]
  | splice nodes => nodes

inductive Control where
  | descend
  | skipChildren
  /-- No further node is looked at; what is left stays as it is. -/
  | stop
  deriving DecidableEq, Repr

structure Visit where
  transform : Transform
  control : Control

namespace Visit

def keep : Visit := ⟨.keep, .descend⟩

def replace (node : Node) : Visit := ⟨.replace node, .descend⟩

def skip : Visit := ⟨.keep, .skipChildren⟩

def remove : Visit := ⟨.remove, .skipChildren⟩

def splice (nodes : List Node) : Visit := ⟨.splice nodes, .skipChildren⟩

end Visit

inductive LogEntry where
  /-- A hook was called: its name, the depth, the texts of the node, of the node as its trail shows
  it, of the sibling in front and of the parent. -/
  | called (hook : String) (depth : Nat) (node here : String) (previous parent : Option String)
  | took (name : String) (value : Option String)
  deriving DecidableEq, Repr

/-- What hooks may change besides the nodes: messages, the next free node number, the request to
end all traversals, and the log, last entry first. -/
structure Session where
  board : Board
  nextId : Nat
  cancelled : Bool
  log : List LogEntry

def Session.start (nextId : Nat) (cancelled : Bool) : Session := ⟨.empty, nextId, cancelled, []⟩

/-- Hooks run at a trail, which they can only look at. -/
abbrev HookM := ReaderT Trail (ExceptT VisitError (StateM Session))

namespace HookM

/-- A made tree as new elements. -/
def number (node : Node) : HookM Node := do
  let (node, nextId) := node.number (← get).nextId
  modify fun session => { session with nextId }
  return node

def freshId : HookM NodeId := do
  let id := (← get).nextId
  modify fun session => { session with nextId := id + 1 }
  return ⟨id⟩

def put (level : Nat) (name : String) (message : Message) : HookM Unit :=
  modify fun session => { session with board := session.board.put level name message }

/-- Take a message that was left at the node itself. -/
def take (name : String) (type : MessageType) : HookM (Option Message) := do
  let (message, board) := (← get).board.take 0 name type
  modify fun session => { session with board }
  return message

def note (entry : LogEntry) : HookM Unit :=
  modify fun session => { session with log := entry :: session.log }

def cancel : HookM Unit := modify fun session => { session with cancelled := true }

end HookM

structure Visitor where
  name : String
  visit : Node → HookM Visit
  /-- Called after the children, with the node as its children left it. -/
  leave : Node → HookM Transform

namespace Visitor

def identity : Visitor := ⟨"identity", fun _ => return .keep, fun _ => return .keep⟩

def onVisit (name : String) (visit : Node → HookM Visit) : Visitor :=
  ⟨name, visit, fun _ => return .keep⟩

end Visitor

end Verbatim
