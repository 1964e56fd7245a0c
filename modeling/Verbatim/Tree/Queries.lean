import Verbatim.Tree.Node

/-! Looking through a tree without listing it first: a tour that keeps a stack of the nodes to
come, a search that stops at the first hit, and the texts of the tokens added up on the way. -/

namespace Verbatim

/-- The nodes seen so far, and the stack of those to come with the next one on top. -/
structure Tour where
  seen : Array Node
  stack : Array Node

namespace Tour

def start (node : Node) : Tour := ⟨#[], #[node]⟩

/-- Take the node on top. Its children are pushed from the last to the first. -/
def step? (tour : Tour) : Option Tour :=
  tour.stack.back?.map fun node =>
    ⟨tour.seen.push node, tour.stack.pop ++ node.children.reverse⟩

/-- The nodes seen, and then all nodes below those to come. -/
def listing (tour : Tour) : List Node :=
  tour.seen.toList ++ tour.stack.toList.reverse.flatMap Node.preorder

theorem step_listing {tour next : Tour} (stepped : tour.step? = some next) :
    next.listing = tour.listing ∧ next.seen.size = tour.seen.size + 1 := by
  obtain ⟨node, top, rfl⟩ := Option.map_eq_some_iff.1 stepped
  obtain ⟨below, equal⟩ := Array.back?_eq_some_iff.1 top
  constructor
  · simp [listing, equal, Node.preorder_eq node]
  · simp

theorem fewer_of_step {tour next : Tour} (stepped : tour.step? = some next) :
    next.listing.length - next.seen.size < tour.listing.length - tour.seen.size := by
  obtain ⟨listed, more⟩ := step_listing stepped
  have inside : next.seen.size ≤ next.listing.length := by simp [listing]
  rw [listed] at inside ⊢
  omega

/-- Take all nodes. -/
def run (tour : Tour) : List Node :=
  match stepped : tour.step? with
  | none => tour.seen.toList
  | some next =>
    have := fewer_of_step stepped
    next.run
  termination_by tour.listing.length - tour.seen.size

end Tour

namespace Node

def tour (node : Node) : List Node := (Tour.start node).run

mutual

/-- The first node that satisfies the condition, a node coming before its children. -/
def first? (condition : Node → Bool) : Node → Option Node
  | ⟨head, children⟩ =>
    if condition ⟨head, children⟩ then some ⟨head, children⟩ else firstAmong? condition children

def firstAmong? (condition : Node → Bool) : List Node → Option Node
  | [] => none
  | node :: rest =>
    match node.first? condition with
    | some found => some found
    | none => firstAmong? condition rest

end

def byId? (node : Node) (id : NodeId) : Option Node := node.first? fun other => other.id = id

mutual

/-- Add the texts of all tokens to what was collected before. -/
def collectTokens (collected : String) : Node → String
  | ⟨head, children⟩ =>
    collectTokensOfAll
      (match head.text with
        | some text => collected ++ text
        | none => collected)
      children

def collectTokensOfAll (collected : String) : List Node → String
  | [] => collected
  | node :: rest => collectTokensOfAll (node.collectTokens collected) rest

end

end Node

end Verbatim
