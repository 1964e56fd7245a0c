import Verbatim.Text.Lines

/-! Paths of files, as texts with slashes. A path is a sequence of steps; different texts may write
the same steps. -/

namespace Verbatim.Path

inductive Step where
  | root
  | here
  | up
  | name (name : String)
  deriving DecidableEq, Repr

def Step.ofText (piece : String) : Step :=
  match piece with
  | "." => .here
  | ".." => .up
  | _ => .name piece

/-- Doubled and final slashes add no step, and a dot is one only at the very start. -/
def steps (path : String) : List Step :=
  match Text.splitString '/' path with
  | "" :: pieces => if path.isEmpty then [] else .root :: laterSteps pieces
  | "." :: pieces => .here :: laterSteps pieces
  | pieces => laterSteps pieces
where
  laterSteps (pieces : List String) : List Step :=
    (pieces.filter fun piece => piece ≠ "" ∧ piece ≠ ".").map Step.ofText

example : steps "./a//b/./../c/" = [.here, .name "a", .name "b", .up, .name "c"] ∧
    steps "/." = [.root] ∧ steps "" = [] := by decide

/-! Paths are compared step by step, names by their code points. -/

def Step.key : Step → List Nat
  | .root => [0]
  | .here => [1]
  | .up => [2]
  | .name text => 3 :: text.toList.map Char.toNat

/-- Paths have the same key when they have the same steps. -/
def key (path : String) : List (List Nat) := (steps path).map Step.key

/-- Put something in its place by its path. Where there is something with that path already, that
stays. -/
def insertBy (pathOf : α → String) (added : α) : List α → List α
  | [] => [added]
  | other :: rest =>
    if key (pathOf added) < key (pathOf other) then added :: other :: rest
    else if key (pathOf added) = key (pathOf other) then other :: rest
    else other :: insertBy pathOf added rest

/-- In increasing order of paths, each path once. Of several things with one path the first one
counts. -/
def sortBy (pathOf : α → String) (given : List α) : List α :=
  given.foldl (fun sorted added => insertBy pathOf added sorted) []

example : sortBy id ["a.b/c", "a//b", "a/b", "a"] = ["a", "a//b", "a.b/c"] := by decide

/-! Names. -/

/-- A path that ends by going up has no name. -/
def fileName? (path : String) : Option String :=
  match (steps path).getLast? with
  | some (.name name) => some name
  | _ => none

/-- What follows the last dot. A dot at the start of a name does not count. -/
def extensionOf (name : String) : Option String :=
  match (Text.splitString '.' name).reverse with
  | _ :: [""] => none
  | final :: _ :: _ => some final
  | _ => none

def extension? (path : String) : Option String := (fileName? path).bind extensionOf

example : extension? "a/b.c.java/" = some "java" ∧ extension? "a/.java" = none ∧
    extension? "x." = some "" ∧ extension? "..java" = some "java" ∧ extension? ".." = none := by
  decide

def isHidden (name : String) : Bool := name.toList.head? = some '.'

/-- The path of something in a folder. -/
def child (folder name : String) : String :=
  if folder.toList.getLast? = some '/' then folder ++ name else folder ++ "/" ++ name

end Verbatim.Path
