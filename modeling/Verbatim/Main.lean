import Verbatim.Workbench.CommandLine

/-! The program. It takes a picture of the files that a command is for, and writes what carrying out
the command on the picture comes to. -/

namespace Verbatim

/-- The file or folder of an entry, without what is hidden in it. Links in folders are not
followed. -/
partial def readTree (entry : IO.FS.DirEntry) : IO FileTree := do
  if (← entry.path.metadata).type matches .dir then
    let mut entries := []
    for inner in ← entry.path.readDir do
      let kind := (← inner.path.symlinkMetadata).type
      if !Path.isHidden inner.fileName && (kind matches .dir | .file) then
        entries := (inner.fileName, ← readTree inner) :: entries
    return .folder entries
  else return .file (String.fromUTF8? (← IO.FS.readBinFile entry.path))

def lookAt (path : String) : IO (Except AccessFault FileTree) := do
  let entry : IO.FS.DirEntry := ⟨".", path⟩
  if path.isEmpty then return .error .missing
  try return .ok (← readTree entry)
  catch
    | .inappropriateType .. => return .error .notFolder
    | .noFileOrDirectory .. | .noSuchThing .. => return .error .missing
    | error => throw error

def takeSnapshot (paths : List String) : IO Snapshot := do
  let found ← paths.mapM fun path => return (path, ← lookAt path)
  return fun path => (found.lookup path).getD (.error .missing)

end Verbatim

open Verbatim

def main (arguments : List String) : IO UInt32 := do
  let paths := match CommandLine.parse arguments with
    | .ok command => command.paths
    | .error _ => []
  let outcome := CommandLine.run arguments (← takeSnapshot paths)
  for (path, text) in outcome.texts do
    IO.FS.writeFile path text
  IO.print outcome.output
  return outcome.code.toUInt32
