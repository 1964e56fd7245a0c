import Verbatim.Traversal.Visitor

/-! Visitors given by a table of rules. At every hook the first rule whose conditions hold is
applied: first its messages and interruptions, then its edits of the node, then what becomes of
the node. Where no rule holds the node stays. -/

namespace Verbatim.Script

inductive NodeRef where
  /-- The node of the hook, as edited. -/
  | self
  /-- A child of it, if there is one of that number. -/
  | child (place : Nat)
  | made (node : Node)

/-- A hook may break down with something that is no text. -/
inductive Breakdown where
  | text (message : String)
  | other
  deriving DecidableEq, Repr

structure Conditions where
  /-- Names of hooks, one of which must be called. -/
  hooks : Option (List String)
  text : Option String
  tokens : Option String
  /-- The text of the sibling in front, none standing for no sibling. -/
  previous : Option (Option String)
  /-- A kind that encloses the parent. -/
  inside : Option Kind
  /-- A message that is, or is not, at the node or above. -/
  has : Option String
  hasNot : Option String
  /-- A message at the node itself. -/
  own : Option String
  /-- The text of all tokens is shorter than this many bytes. -/
  shorterThan : Option Nat

/-- A message to leave at the node, or at the nearest node of a kind. -/
structure Posting where
  name : String
  value : String
  on : Option Kind

structure Effects where
  post : Option Posting
  take : Option String
  cancels : Bool
  fails : Option String
  breaks : Option Breakdown

structure Edits where
  setText : Option String
  appendText : Option String
  setLeading : Option Trivia
  defaultLeading : Bool
  setTrailing : Option Trivia
  mark : Option Marker
  freshId : Bool
  replacement : Option Node
  children : Option (List NodeRef)

inductive Act where
  | keep
  | skip
  | stop
  | remove
  | insertBefore (node : NodeRef)
  | insertAfter (node : NodeRef)
  | spread (nodes : List NodeRef)

structure Rule where
  conditions : Conditions
  effects : Effects
  edits : Edits
  act : Act
  /-- Takes the place of the control that goes with the act. -/
  control : Option Control

/-! Conditions. -/

structure Scene where
  hook : String
  node : Node
  trail : Trail
  board : Board

namespace Scene

def previous (scene : Scene) : Option String := scene.trail.previousSibling?.map Node.tokensText

def isInside (scene : Scene) (kind : Kind) : Bool := scene.trail.above.any (·.is kind)

def hasMessage (scene : Scene) (name : String) : Bool := (scene.board.nearest? name .text).isSome

def ownsMessage (scene : Scene) (name : String) : Bool :=
  (scene.board.message? 0 name .text).isSome

end Scene

def Conditions.hold (conditions : Conditions) (scene : Scene) : Bool :=
  conditions.hooks.all (fun hooks => hooks.contains scene.hook) &&
  conditions.text.all (fun text => scene.node.text = some text) &&
  conditions.tokens.all (fun tokens => scene.node.tokensText = tokens) &&
  conditions.previous.all (fun previous => scene.previous = previous) &&
  conditions.inside.all scene.isInside &&
  conditions.has.all scene.hasMessage &&
  conditions.hasNot.all (fun name => !scene.hasMessage name) &&
  conditions.own.all scene.ownsMessage &&
  conditions.shorterThan.all (fun size => scene.node.tokensText.utf8ByteSize < size)

/-! Effects. -/

def Posting.run (posting : Posting) : HookM Unit := do
  let trail ← read
  let level := match posting.on with
    | none => some 0
    | some kind => trail.levelOf? kind
  match level with
  | some level => HookM.put level posting.name (.text posting.value)
  | none => return ()

def takeMessage (name : String) : HookM Unit := do
  let message ← HookM.take name .text
  let value := message.bind fun
    | .text value => some value
    | .bool _ | .int _ => none
  HookM.note (.took name value)

def Breakdown.message : Breakdown → String
  | text message => message
  | other => "unknown panic payload"

def Effects.run (effects : Effects) : HookM Unit := do
  effects.post.forM Posting.run
  effects.take.forM takeMessage
  if effects.cancels then HookM.cancel
  effects.fails.forM fun reason => throw (.failed reason)
  effects.breaks.forM fun breakdown => throw (.panicked breakdown.message)

/-! Edits. A made node is new each time it is put somewhere. -/

def NodeRef.resolve (current : Node) : NodeRef → HookM (List Node)
  | self => return [current]
  | child place => return (current.children[place]?).toList
  | made node => return [← HookM.number node]

def resolveAll (current : Node) (refs : List NodeRef) : HookM (List Node) := do
  return (← refs.mapM (NodeRef.resolve current)).flatten

def Edits.run (edits : Edits) (node : Node) : HookM (Option Node) := do
  let edit (current : Option Node) (change : Option (Node → Node)) : Option Node :=
    match change with
    | none => current
    | some change => some (change (current.getD node))
  let current := edit none (edits.setText.map fun text node => node.withText text)
  let current := edit current
    (edits.appendText.map fun text node => node.withText (node.text.getD "" ++ text))
  let current := edit current (edits.setLeading.map fun trivia node => node.withLeading trivia)
  let current := edit current (if edits.defaultLeading then some Node.withDefaultLeading else none)
  let current := edit current (edits.setTrailing.map fun trivia node => node.withTrailing trivia)
  let current := edit current (edits.mark.map fun marker node => node.withMarker marker)
  let current ← if edits.freshId then do
      let id ← HookM.freshId
      pure (edit current (some fun node => node.withId id))
    else pure current
  let current ← match edits.replacement with
    | none => pure current
    | some made => do pure (some (← HookM.number made))
  match edits.children with
  | none => return current
  | some refs => do
    let children ← resolveAll (current.getD node) refs
    return edit current (some fun node => node.withChildren children)

/-! The hooks. -/

def kept : Option Node → Transform
  | none => .keep
  | some node => .replace node

def Act.nodes? (act : Act) (current : Node) : HookM (Option (List Node)) :=
  match act with
  | remove => return some []
  | insertBefore ref => do return some ((← ref.resolve current) ++ [current])
  | insertAfter ref => do return some (current :: (← ref.resolve current))
  | spread refs => do return some (← resolveAll current refs)
  | keep | skip | stop => return none

def Act.control : Act → Control
  | keep => .descend
  | stop => .stop
  | skip | remove | insertBefore _ | insertAfter _ | spread _ => .skipChildren

def Rule.transform (rule : Rule) (node : Node) : HookM Transform := do
  rule.effects.run
  let edited ← rule.edits.run node
  match ← rule.act.nodes? (edited.getD node) with
  | none => return kept edited
  | some nodes => return .splice nodes

/-- Write down a call, if calls are to be traced, and find the rule for it. -/
def findRule (rules : List Rule) (traces : Bool) (hook : String) (node : Node) :
    HookM (Option Rule) := do
  let trail ← read
  let scene : Scene := ⟨hook, node, trail, (← get).board⟩
  if traces then
    HookM.note (.called hook trail.depth node.tokensText trail.here.tokensText scene.previous
      (trail.parent?.map Node.tokensText))
  return rules.find? (·.conditions.hold scene)

/-- Hooks are named for the kinds of nodes. -/
def hookName (step : String) (kind : Kind) : String :=
  match kind with
  | .custom custom => step ++ "_custom:" ++ custom.name
  | kind => step ++ "_" ++ kind.name

def visitor (name : String) (rules : List Rule) (traces : Bool) : Visitor where
  name := name
  visit node := do
    match ← findRule rules traces (hookName "visit" node.kind) node with
    | none => return .keep
    | some rule =>
      return ⟨← rule.transform node, rule.control.getD rule.act.control⟩
  leave node := do
    match ← findRule rules traces (hookName "leave" node.kind) node with
    | none => return .keep
    | some rule => rule.transform node

end Verbatim.Script
