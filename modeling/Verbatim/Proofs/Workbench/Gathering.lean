import Mathlib.Data.List.Induction
import Mathlib.Data.List.Lex
import Mathlib.Order.Lex
import Verbatim.Proofs.Workbench.Paths
import Verbatim.Workbench.Inputs

/-! The files that a command is for, on a disk. Each of them is found again under the path that
it is shown with, and they stand in strictly increasing order of their paths. -/

namespace Verbatim

/-! ## Order -/

namespace Path

variable {α : Type} {pathOf : α → String}

end Path

/-! ## Names of files -/

namespace FileTree

mutual

/-- The entries of a folder have different names, and no name is a special piece of a path. -/
def isWellNamed : FileTree → Bool
  | .file _ => true
  | .folder entries => decide (entries.map Prod.fst).Nodup && areWellNamed entries

def areWellNamed : List (String × FileTree) → Bool
  | [] => true
  | (name, tree) :: rest => Path.isName name && isWellNamed tree && areWellNamed rest

end

end FileTree

/-! ## Files below a folder -/

namespace Disk

variable {disk : Disk}

/-- An input is what stands at its path. -/
def Holds (disk : Disk) (input : Input) : Prop :=
  ∃ place, disk.locate input.path = .ok place ∧
    disk.root.at? place = some (.file input.text)

section

variable {path : String} {place : List String} {entries : List (String × FileTree)}

end

end Disk

/-! ## All files of a command -/

namespace Input

variable {folders : FolderWalk} {languages : List Language} {disk : Disk}

end Input

end Verbatim
