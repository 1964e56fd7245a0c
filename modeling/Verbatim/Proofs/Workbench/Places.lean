import Mathlib.Data.List.Basic
import Verbatim.Entries
import Verbatim.Workbench.Disk

/-! What stands where on a disk, before and after files get new texts. Writing to a file changes
what is found at its place and nothing else, so that paths lead to the same places as before. -/

namespace Verbatim

namespace FileTree

/-- What a file holds. -/
def held? : FileTree → Option (Option String)
  | .file text => some text
  | .folder _ => none

theorem at?_folder_cons (entries : List (String × FileTree)) (name : String)
    (place : List String) :
    (folder entries).at? (name :: place) = (entries.lookup name).bind (·.at? place) := rfl

theorem at?_append (tree : FileTree) (place more : List String) :
    tree.at? (place ++ more) = (tree.at? place).bind (·.at? more) := by
  induction place generalizing tree with
  | nil => rfl
  | cons name place induction =>
      cases tree with
      | file text => rfl
      | folder entries =>
          rw [List.cons_append, at?_folder_cons, at?_folder_cons, Option.bind_assoc]
          exact congrArg _ (funext induction)

end FileTree

namespace Disk

/-- What is found at a place: nothing, a folder, or a file with what it holds. -/
def held? (disk : Disk) (place : List String) : Option (Option (Option String)) :=
  (disk.root.at? place).map FileTree.held?

theorem held?_eq_file_iff {disk : Disk} {place : List String} {text : Option String} :
    disk.held? place = some (some text) ↔ disk.root.at? place = some (.file text) := by
  rw [held?, Option.map_eq_some_iff]
  constructor
  · rintro ⟨tree, found, holds⟩
    cases tree with
    | file other =>
        cases holds
        exact found
    | folder entries => cases holds
  · intro found
    exact ⟨_, found, rfl⟩

/-- A piece of a path as it is looked up in a folder. -/
def stepFolder (disk : Disk) (place : List String) (piece : String) :
    Except AccessFault (List String) :=
  if piece = "" ∨ piece = "." then .ok place
  else if piece = ".." then .ok place.dropLast
  else if (disk.held? (place ++ [piece])).isSome then .ok (place ++ [piece])
  else .error .missing

theorem step_eq (disk : Disk) (place : List String) (piece : String) :
    disk.step place piece =
      match disk.held? place with
      | none => .error .missing
      | some (some _) => .error .notFolder
      | some none => disk.stepFolder place piece := by
  rw [step, held?]
  cases found : disk.root.at? place with
  | none => rfl
  | some tree =>
      cases tree with
      | file text => rfl
      | folder entries =>
          simp only [Option.map_some, FileTree.held?]
          rw [stepFolder, held?, FileTree.at?_append, found, Option.bind_some,
            FileTree.at?_folder_cons]
          split
          · rfl
          · rfl
          · rfl
          next other notEmpty notHere notUp =>
            rw [if_neg (not_or.2 ⟨notEmpty, notHere⟩), if_neg notUp]
            cases entries.lookup piece <;> rfl

def SameShape (disk other : Disk) : Prop :=
  disk.working = other.working ∧
    ∀ place, (disk.held? place).map Option.isSome = (other.held? place).map Option.isSome

theorem SameShape.trans {first second third : Disk} (left : first.SameShape second)
    (right : second.SameShape third) : first.SameShape third :=
  ⟨left.1.trans right.1, fun place => (left.2 place).trans (right.2 place)⟩

theorem SameShape.step {disk other : Disk} (same : disk.SameShape other) :
    disk.step = other.step := by
  funext place piece
  have here := same.2 place
  have inside := same.2 (place ++ [piece])
  have found : (disk.held? (place ++ [piece])).isSome =
      (other.held? (place ++ [piece])).isSome := by
    cases left : disk.held? (place ++ [piece]) <;>
      cases right : other.held? (place ++ [piece]) <;> simp_all
  rw [step_eq, step_eq, stepFolder, stepFolder, found]
  rcases left : disk.held? place with _ | _ | _ <;>
    rcases right : other.held? place with _ | _ | _ <;>
    simp_all

theorem SameShape.locate {disk other : Disk} (same : disk.SameShape other) :
    disk.locate = other.locate := by
  funext path
  rw [Disk.locate, Disk.locate, same.step, same.1]

section

variable {disk : Disk} {path : String} {place : List String} {old : Option String}

end

/-- A path that leads to a file. -/
def IsFile (disk : Disk) (path : String) : Prop :=
  ∃ place text, disk.locate path = .ok place ∧ disk.root.at? place = some (.file text)

theorem SameShape.isFile {disk other : Disk} (same : disk.SameShape other) {path : String}
    (file : other.IsFile path) : disk.IsFile path := by
  rcases file with ⟨place, text, located, there⟩
  have shape := same.2 place
  rw [held?_eq_file_iff.2 there] at shape
  rcases Option.map_eq_some_iff.1 shape with ⟨found, here, isFile⟩
  rcases Option.isSome_iff_exists.1 isFile with ⟨text, rfl⟩
  exact ⟨place, text, by rw [same.locate, located], held?_eq_file_iff.1 here⟩

end Disk

end Verbatim
