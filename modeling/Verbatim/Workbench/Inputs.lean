import Verbatim.Language
import Verbatim.Workbench.FileTree

/-! The files that a command is for. A file that is given is always one of them; a folder stands for
the files below it that some language claims for itself. -/

namespace Verbatim

/-- A file under the path that it is shown with. -/
structure Input where
  path : String
  text : Option String
  deriving DecidableEq, Repr

/-! Files below a folder. An entry that is not entered is left out, with all that is in it. -/

inductive LiesBelow (enters : String → Bool) :
    (path : String) → List (String × FileTree) → Input → Prop
  | here {path name : String} {entries : List (String × FileTree)} {text : Option String} :
    (name, .file text) ∈ entries → enters name = true →
    LiesBelow enters path entries ⟨Path.child path name, text⟩
  | inside {path name : String} {entries inner : List (String × FileTree)} {input : Input} :
    (name, .folder inner) ∈ entries → enters name = true →
    LiesBelow enters (Path.child path name) inner input → LiesBelow enters path entries input

/-- A way to go through folders. It comes to all files that lie below, in whatever order. -/
structure FolderWalk where
  files : (enters : String → Bool) → (path : String) → List (String × FileTree) → List Input
  mem_files_iff : ∀ enters path entries input,
    input ∈ files enters path entries ↔ LiesBelow enters path entries input

namespace FolderWalk

mutual

def filesAt (enters : String → Bool) (path : String) : FileTree → List Input
  | .file text => [⟨path, text⟩]
  | .folder entries => filesBelow enters path entries

/-- Entries come in their order, each folder with all that is in it. -/
def filesBelow (enters : String → Bool) (path : String) :
    List (String × FileTree) → List Input
  | [] => []
  | (name, tree) :: rest =>
    (if enters name then filesAt enters (Path.child path name) tree else []) ++
      filesBelow enters path rest

end

theorem mem_filesBelow {enters : String → Bool} {path : String}
    {entries : List (String × FileTree)} {input : Input} :
    input ∈ filesBelow enters path entries ↔
      ∃ entry ∈ entries, enters entry.1 = true ∧
        input ∈ filesAt enters (Path.child path entry.1) entry.2 := by
  induction entries with
  | nil => simp [filesBelow]
  | cons entry rest induction =>
      rw [filesBelow, List.mem_append, induction]
      cases entered : enters entry.1 <;> simp [entered]

theorem liesBelow_of_mem {enters : String → Bool} {input : Input} :
    ∀ (entries : List (String × FileTree)) (path : String),
      input ∈ filesBelow enters path entries → LiesBelow enters path entries input
  | entries, path, member => by
      rcases mem_filesBelow.1 member with ⟨⟨name, tree⟩, listed, entered, inside⟩
      cases tree with
      | file text =>
          rw [List.mem_singleton.1 inside]
          exact .here listed entered
      | folder inner => exact .inside listed entered (liesBelow_of_mem inner _ inside)
  termination_by entries => sizeOf entries
  decreasing_by
    have smaller := List.sizeOf_lt_of_mem listed
    simp only [Prod.mk.sizeOf_spec, FileTree.folder.sizeOf_spec] at smaller
    omega

/-- Depth first. -/
def standard : FolderWalk where
  files := filesBelow
  mem_files_iff enters path entries input := by
    refine ⟨liesBelow_of_mem entries path, fun lies => ?_⟩
    induction lies with
    | here listed entered =>
        exact mem_filesBelow.2 ⟨_, listed, entered, List.mem_singleton_self _⟩
    | inside listed entered _ induction =>
        exact mem_filesBelow.2 ⟨_, listed, entered, induction⟩

end FolderWalk

namespace Input

/-- Plain text claims every file, so its claim is no reason to take one. -/
def isTaken (languages : List Language) (path : String) : Bool :=
  (Language.for? languages path).any fun language => language.name ≠ Language.plainText.name

section

variable (folders : FolderWalk) (languages : List Language) (snapshot : Snapshot)

/-- What is hidden below a folder is left out. -/
def atPath (path : String) : Except Failure (List Input) :=
  match snapshot path with
  | .ok (.file text) => .ok [⟨path, text⟩]
  | .ok (.folder entries) =>
    .ok ((folders.files (fun name => !Path.isHidden name) path entries).filter
      fun input => isTaken languages input.path)
  | .error _ => .error (.fileNotFound path)

/-- All files at the given paths, each once and in the order of paths. -/
def collect (paths : List String) : Except Failure (List Input) := do
  return Path.sortBy Input.path (← paths.mapM (atPath folders languages snapshot)).flatten

end

end Input

end Verbatim
