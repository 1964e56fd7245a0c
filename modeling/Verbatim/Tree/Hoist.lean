import Verbatim.Tree.Node

/-! Formatting in front of a declaration belongs to the declaration, not to its first token, so
that it stays with the declaration when that is moved or loses its first token. -/

namespace Verbatim.Node

def hasLeading (node : Node) : Bool := !node.leadingOrEmpty.isEmpty

/-- Give a node the formatting of its first child if it has none of its own. -/
def takeLeading (head : NodeHead) : List Node → Node
  | [] => ⟨head, []⟩
  | first :: rest =>
    let node := Node.mk head (first :: rest)
    if first.hasLeading && !node.hasLeading then
      (node.withChildren (first.withLeading .empty :: rest)).withLeading first.leadingOrEmpty
    else node.withChildren (first :: rest)

mutual

/-- Move formatting from first tokens up to the outermost node that starts at the same place. -/
def hoist : Node → Node
  | ⟨head, children⟩ => takeLeading head (hoistAll children)

def hoistAll : List Node → List Node
  | [] => []
  | node :: rest => node.hoist :: hoistAll rest

end

end Verbatim.Node
