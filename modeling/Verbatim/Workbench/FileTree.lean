import Verbatim.Recipe.Fault

/-! What a command finds at the paths that are given to it. Commands are worked out on a picture of
the files; nothing in them looks at files again. -/

namespace Verbatim

inductive FileTree where
  /-- Some files hold no text. -/
  | file (text : Option String)
  | folder (entries : List (String × FileTree))
  deriving Inhabited

/-- Why there is no text to be had from a path. -/
inductive AccessFault where
  | missing
  /-- The path goes on behind a file. -/
  | notFolder
  | isFolder
  | notText
  deriving DecidableEq, Repr

def AccessFault.message : AccessFault → String
  | missing => "No such file or directory (os error 2)"
  | notFolder => "Not a directory (os error 20)"
  | isFolder => "Is a directory (os error 21)"
  | notText => "stream did not contain valid UTF-8"

/-- What is at each path. -/
abbrev Snapshot := String → Except AccessFault FileTree

def Snapshot.readText (snapshot : Snapshot) (path : String) : Except AccessFault String := do
  match ← snapshot path with
  | .folder _ => .error .isFolder
  | .file none => .error .notText
  | .file (some text) => return text

end Verbatim
