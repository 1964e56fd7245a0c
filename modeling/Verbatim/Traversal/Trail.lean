import Verbatim.Text.Quoted
import Verbatim.Tree.Node

/-! Where a traversal is: a node and the nodes around it, and messages left at them. -/

namespace Verbatim

/-- A node and its ancestors, nearest first, as the traversal sees them at the moment. -/
structure Trail where
  here : Node
  above : List Node
  deriving Inhabited

namespace Trail

def nodes (trail : Trail) : List Node := trail.here :: trail.above

def depth (trail : Trail) : Nat := trail.above.length

def parent? (trail : Trail) : Option Node := trail.above.head?

def root (trail : Trail) : Node := trail.above.getLastD trail.here

/-- How many levels up the nearest node of a kind is; the node itself is looked at first. -/
def levelOf? (trail : Trail) (kind : Kind) : Option Nat := trail.nodes.findIdx? (·.is kind)

def enclosing? (trail : Trail) (kind : Kind) : Option Node := trail.nodes.find? (·.is kind)

/-- The trail of the node so many levels up. -/
def up? (trail : Trail) (levels : Nat) : Option Trail :=
  match trail.nodes.drop levels with
  | [] => none
  | here :: above => some ⟨here, above⟩

def down (trail : Trail) (child : Node) : Trail := ⟨child, trail.nodes⟩

def childBefore? (id : NodeId) : List Node → Option Node
  | first :: second :: rest =>
    if first.id = id then none
    else if second.id = id then some first
    else childBefore? id (second :: rest)
  | _ => none

/-- The sibling in front of the node among the present children of its parent. -/
def previousSibling? (trail : Trail) : Option Node :=
  trail.parent?.bind fun parent => childBefore? trail.here.id parent.children

def display (trail : Trail) : String :=
  "Cursor \x7b path: " ++
    Text.quoted (String.intercalate " > " (trail.nodes.reverse.map (·.kind.display))) ++ " \x7d"

end Trail

/-! Messages have a name and a typed value. A message of another type than asked for counts as
absent. -/

inductive Message where
  | bool (value : Bool)
  | int (value : Int)
  | text (value : String)
  deriving DecidableEq, Repr

inductive MessageType where
  | bool
  | int
  | text
  deriving DecidableEq, Repr

def Message.type : Message → MessageType
  | .bool _ => .bool
  | .int _ => .int
  | .text _ => .text

/-- The messages at every node of a trail, those of the node itself first. -/
structure Board where
  levels : List (List (String × Message))
  deriving DecidableEq, Repr

namespace Board

def empty : Board := ⟨[[]]⟩

def enter (board : Board) : Board := ⟨[] :: board.levels⟩

def leave (board : Board) : Board := ⟨board.levels.tail⟩

/-- The last message of a name wins. -/
def put (board : Board) (level : Nat) (name : String) (message : Message) : Board :=
  ⟨board.levels.modify level fun messages =>
    (name, message) :: messages.filter fun entry => entry.1 ≠ name⟩

def ofType (type : MessageType) (messages : List (String × Message)) (name : String) :
    Option Message :=
  (messages.lookup name).filter fun message => message.type = type

def message? (board : Board) (level : Nat) (name : String) (type : MessageType) : Option Message :=
  ofType type (board.levels[level]?.getD []) name

/-- A message of another type is not taken away. -/
def take (board : Board) (level : Nat) (name : String) (type : MessageType) :
    Option Message × Board :=
  match board.message? level name type with
  | none => (none, board)
  | some message =>
    (some message,
      ⟨board.levels.modify level fun messages => messages.filter fun entry => entry.1 ≠ name⟩)

def nearest? (board : Board) (name : String) (type : MessageType) : Option Message :=
  board.levels.findSome? fun messages => ofType type messages name

end Board

end Verbatim
