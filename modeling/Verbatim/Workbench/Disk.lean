import Verbatim.Path
import Verbatim.Workbench.FileTree

/-! Files that stay as they are between two writes: one tree of folders, and the folder in which
paths start. -/

namespace Verbatim

namespace FileTree

/-- What the names lead to, one folder after the other. -/
def at? (tree : FileTree) : List String → Option FileTree
  | [] => some tree
  | name :: place =>
    match tree with
    | file _ => none
    | folder entries => (entries.lookup name).bind fun inner => inner.at? place

def setEntry (name : String) (tree : FileTree) : List (String × FileTree) → List (String × FileTree)
  | [] => [(name, tree)]
  | (other, old) :: rest =>
    if other = name then (name, tree) :: rest else (other, old) :: setEntry name tree rest

/-- Put something at a place. Folders that are missing on the way are made. -/
def put (tree made : FileTree) : List String → FileTree
  | [] => made
  | name :: place =>
    let entries := match tree with
      | file _ => []
      | folder entries => entries
    let inner := (entries.lookup name).getD (folder [])
    folder (setEntry name (inner.put made place) entries)

end FileTree

structure Disk where
  root : FileTree
  /-- The place of the folder in which paths start, unless they start at the root. -/
  working : List String

namespace Disk

/-- Go one piece of a path further. Only a folder can be gone on from, and the root is above
itself. -/
def step (disk : Disk) (place : List String) (piece : String) :
    Except AccessFault (List String) :=
  match disk.root.at? place with
  | none => .error .missing
  | some (.file _) => .error .notFolder
  | some (.folder entries) =>
    match piece with
    | "" | "." => .ok place
    | ".." => .ok place.dropLast
    | name => if (entries.lookup name).isSome then .ok (place ++ [name]) else .error .missing

def locate (disk : Disk) (path : String) : Except AccessFault (List String) :=
  match Text.splitString '/' path with
  | [""] => .error .missing
  | "" :: pieces => pieces.foldlM disk.step []
  | pieces => pieces.foldlM disk.step disk.working

def snapshot (disk : Disk) : Snapshot := fun path => do
  match disk.root.at? (← disk.locate path) with
  | some tree => .ok tree
  | none => .error .missing

/-- Give a file a new text. -/
def write (disk : Disk) (path text : String) : Disk :=
  match disk.locate path with
  | .ok place => { disk with root := disk.root.put (.file (some text)) place }
  | .error _ => disk

def writeAll (disk : Disk) (texts : List (String × String)) : Disk :=
  texts.foldl (fun disk (path, text) => disk.write path text) disk

example :
    let disk : Disk := ⟨.folder [("a", .folder [("b", .file (some "x"))])], ["a"]⟩
    (disk.snapshot.readText "../a/./b").toOption = some "x" ∧
      (disk.snapshot.readText "b/").toOption = none ∧
      ((disk.write "b" "y").snapshot.readText "/a/b").toOption = some "y" := by
  decide

end Disk

end Verbatim
