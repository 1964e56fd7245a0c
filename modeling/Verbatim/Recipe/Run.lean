import Verbatim.Failure
import Verbatim.Traversal.Walk

/-! Recipes: visitors that are applied one after the other, each to what the one before it left. One
round over all visitors is a cycle. What counts as a change is the content: a visitor that rebuilds
nodes as they were leaves the tree in place, origins included. -/

namespace Verbatim

inductive Iteration where
  | singlePass
  /-- Until a cycle changes nothing, but at most so many times. -/
  | untilStable (maxCycles : Nat)
  deriving DecidableEq, Repr

namespace Iteration

def standardCycles : Nat := 3

/-- There is always a first cycle. -/
def maxCycles : Iteration → Nat
  | singlePass => 1
  | untilStable cycles => max cycles 1

end Iteration

structure Recipe where
  name : String
  visitors : List Visitor
  iteration : Iteration

/-- A visitor failed, and with it the whole run over its tree. -/
structure RecipeError where
  recipe : String
  visitor : String
  cause : WalkError
  deriving DecidableEq, Repr

namespace RecipeError

def message (error : RecipeError) : String :=
  let place := match error.cause.start with
    | some position => " (" ++ position.display ++ ")"
    | none => ""
  "visitor `" ++ error.visitor ++ "` in recipe `" ++ error.recipe ++ "` failed at " ++
    error.cause.node.display ++ place ++ ": " ++ error.cause.error.message

def toFailure (error : RecipeError) : Failure := .visitorFailed error.visitor error.message

end RecipeError

structure RecipeResult where
  /-- The very tree that was given, unless it was changed. -/
  tree : Node
  changed : Bool
  cycles : Nat
  /-- The last cycle changed nothing, or there was to be one cycle only. -/
  converged : Bool

abbrev RecipeM := ExceptT RecipeError (StateM Session)

namespace Recipe

/-- The tree a visitor leaves, if its content is another one. -/
def applyVisitor (recipe : Recipe) (limits : WalkLimits) (visitor : Visitor) (tree : Node) :
    RecipeM (Option Node) := do
  let (result, session) := walk visitor limits tree (← get)
  set session
  match result with
  | .error cause => throw ⟨recipe.name, visitor.name, cause⟩
  | .ok changed => return changed.filter fun after => !after.contentEq tree

/-- One round over visitors; nothing is given back when none of them changed the content. -/
def cycle (recipe : Recipe) (limits : WalkLimits) : List Visitor → Node → RecipeM (Option Node)
  | [], _ => return none
  | visitor :: rest, tree => do
    let changed ← recipe.applyVisitor limits visitor tree
    return (← cycle recipe limits rest (changed.getD tree)) <|> changed

/-- Go round until nothing changes, at most `left` more times; `cycles` of them are over. -/
def repeatCycle (recipe : Recipe) (limits : WalkLimits) :
    (left cycles : Nat) → (changed : Bool) → Node → RecipeM RecipeResult
  | 0, cycles, changed, tree => return ⟨tree, changed, cycles, recipe.iteration = .singlePass⟩
  | left + 1, cycles, changed, tree => do
    match ← recipe.cycle limits recipe.visitors tree with
    | none => return ⟨tree, changed, cycles + 1, true⟩
    | some after => repeatCycle recipe limits left (cycles + 1) true after

def runFrom (recipe : Recipe) (limits : WalkLimits) (tree : Node) : RecipeM RecipeResult :=
  recipe.repeatCycle limits recipe.iteration.maxCycles 0 false tree

def run (recipe : Recipe) (limits : WalkLimits) (session : Session) (tree : Node) :
    Except RecipeError RecipeResult :=
  ((recipe.runFrom limits tree).run.run session).1

/-- The recipe over many trees. A failure at one of them does not touch the others. -/
def runAll (recipe : Recipe) (limits : WalkLimits) (session : Session) (trees : List Node) :
    List (Except RecipeError RecipeResult) :=
  trees.map (recipe.run limits session)

end Recipe

end Verbatim
