import Verbatim.Text.Position
import Verbatim.Text.Span
import Verbatim.Tree.Kind
import Verbatim.Tree.Marker
import Verbatim.Tree.Trivia

/-! Trees of source text. A node owns its formatting, its text and its children. A node that is
still as it was read remembers where it came from; every change forgets that and keeps the identity
of the node. -/

namespace Verbatim

/-- Two nodes of one tree with the same number are one element at two moments. -/
structure NodeId where
  number : Nat
  deriving DecidableEq, Repr

def NodeId.display (id : NodeId) : String := "NodeId(" ++ toString id.number ++ ")"

/-- Nodes have this number until they are numbered. -/
def NodeId.unnumbered : NodeId := ⟨0⟩

structure Origin where
  source : String
  /-- The bytes of the node with all its formatting. -/
  span : Span
  /-- The place behind the leading formatting. -/
  start : Position
  deriving DecidableEq, Repr

def Origin.text (origin : Origin) : String := (origin.span.slice? origin.source).getD ""

/-- Everything about a node but its children. -/
structure NodeHead where
  id : NodeId
  kind : Kind
  /-- Absent on made nodes, whose formatting is left to the printer. -/
  leading : Option Trivia
  text : Option String
  trailing : Trivia
  markers : List Marker
  origin : Option Origin
  deriving DecidableEq, Repr

structure Node extends NodeHead where
  children : List Node
  deriving Repr

namespace Node

theorem induction {motive : Node → Prop}
    (step : ∀ node : Node, (∀ child ∈ node.children, motive child) → motive node) (node : Node) :
    motive node :=
  Node.rec (motive_1 := motive) (motive_2 := fun nodes => ∀ node ∈ nodes, motive node)
    (fun head children induction => step ⟨head, children⟩ induction)
    (fun _ member => absurd member List.not_mem_nil)
    (fun _ _ first rest node member => by
      rcases List.mem_cons.1 member with rfl | member
      · exact first
      · exact rest node member)
    node

/-! Made nodes. -/

def token (kind : Kind) (text : String) : Node :=
  ⟨⟨.unnumbered, kind, none, some text, .empty, [], none⟩, []⟩

def branch (kind : Kind) (children : List Node) : Node :=
  ⟨⟨.unnumbered, kind, none, none, .empty, [], none⟩, children⟩

instance : Inhabited Node := ⟨branch .sourceFile []⟩

/-! Changes. The identity stays, the origin goes. -/

def withText (node : Node) (text : String) : Node := { node with text := some text, origin := none }

def withLeading (node : Node) (leading : Trivia) : Node :=
  { node with leading := some leading, origin := none }

def withDefaultLeading (node : Node) : Node := { node with leading := none, origin := none }

def withTrailing (node : Node) (trailing : Trivia) : Node := { node with trailing, origin := none }

def withChildren (node : Node) (children : List Node) : Node :=
  { node with children, origin := none }

def withMarkers (node : Node) (markers : List Marker) : Node :=
  { node with markers, origin := none }

def withMarker (node : Node) (marker : Marker) : Node :=
  node.withMarkers (Marker.addTo node.markers marker)

/-- Another element with the same content. It keeps the origin. -/
def withId (node : Node) (id : NodeId) : Node := { node with id }

/-- No leading formatting counts as empty. -/
def leadingOrEmpty (node : Node) : Trivia := node.leading.getD .empty

/-! Queries. -/

def is (node : Node) (kind : Kind) : Bool := node.kind = kind

def isPunctuation (node : Node) (text : String) : Bool :=
  node.is .punctuation && node.text = some text

def childrenOfKind (node : Node) (kind : Kind) : List Node := node.children.filter (·.is kind)

mutual

/-- The texts of all tokens one after the other, without any formatting. -/
def tokensText : Node → String
  | ⟨head, children⟩ => head.text.getD "" ++ tokensTextOfAll children

def tokensTextOfAll : List Node → String
  | [] => ""
  | node :: rest => node.tokensText ++ tokensTextOfAll rest

end

mutual

def preorder : Node → List Node
  | ⟨head, children⟩ => ⟨head, children⟩ :: preorderOfAll children

def preorderOfAll : List Node → List Node
  | [] => []
  | node :: rest => node.preorder ++ preorderOfAll rest

end

theorem preorderOfAll_eq_flatMap (nodes : List Node) :
    preorderOfAll nodes = nodes.flatMap preorder := by
  induction nodes with
  | nil => rfl
  | cons node rest induction => rw [preorderOfAll, induction, List.flatMap_cons]

theorem preorder_eq (node : Node) : node.preorder = node :: node.children.flatMap preorder := by
  cases node
  rw [preorder, preorderOfAll_eq_flatMap]

def size (node : Node) : Nat := node.preorder.length

mutual

/-- How many nodes lie on the longest way down, the node itself included. -/
def height : Node → Nat
  | ⟨_, children⟩ => heightOfAll children + 1

def heightOfAll : List Node → Nat
  | [] => 0
  | node :: rest => max node.height (heightOfAll rest)

end

def find? (condition : Node → Bool) (node : Node) : Option Node := node.preorder.find? condition

mutual

/-- The way down to the first node in `preorder` that satisfies the condition, as a list of child
numbers. -/
def findPath? (condition : Node → Bool) : Node → Option (List Nat)
  | ⟨head, children⟩ =>
    if condition ⟨head, children⟩ then some [] else findPathAmong? condition 0 children

def findPathAmong? (condition : Node → Bool) (place : Nat) : List Node → Option (List Nat)
  | [] => none
  | node :: rest =>
    match node.findPath? condition with
    | some path => some (place :: path)
    | none => findPathAmong? condition (place + 1) rest

end

def descendant? (node : Node) : List Nat → Option Node
  | [] => some node
  | place :: path => (node.children[place]?).bind (·.descendant? path)

/-- Put another node at a path. All nodes above it count as changed; where the path leads nowhere,
nothing is changed. -/
def replaceAt (node other : Node) : List Nat → Node
  | [] => other
  | place :: path =>
    match node.children[place]? with
    | none => node
    | some child => node.withChildren (node.children.set place (child.replaceAt other path))

/-! Two nodes have the same content when they differ in identity and origin only. -/

def headContent (head : NodeHead) : NodeHead := { head with id := .unnumbered, origin := none }

mutual

def contentEq : Node → Node → Bool
  | ⟨head, children⟩, other =>
    headContent head = headContent other.toNodeHead && contentEqAll children other.children

def contentEqAll : List Node → List Node → Bool
  | [], [] => true
  | node :: rest, other :: others => node.contentEq other && contentEqAll rest others
  | _, _ => false

end

mutual

def content : Node → Node
  | ⟨head, children⟩ => ⟨headContent head, contentOfAll children⟩

def contentOfAll : List Node → List Node
  | [] => []
  | node :: rest => node.content :: contentOfAll rest

end

/-! Numbering. -/

mutual

/-- Number all nodes in preorder from `next` on; the first free number is given back. -/
def number (next : Nat) : Node → Node × Nat
  | ⟨head, children⟩ =>
    let (children, free) := numberAll (next + 1) children
    (⟨{ head with id := ⟨next⟩ }, children⟩, free)

def numberAll (next : Nat) : List Node → List Node × Nat
  | [] => ([], next)
  | node :: rest =>
    let (node, next) := node.number next
    let (rest, next) := numberAll next rest
    (node :: rest, next)

end

end Node

end Verbatim
