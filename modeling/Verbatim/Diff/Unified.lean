import Verbatim.Diff.Hunk

/-! The text of a unified diff. -/

namespace Verbatim.Diff

def Line.render : Line → String
  | .same text => " " ++ text ++ "\n"
  | .removed text => "-" ++ text ++ "\n"
  | .added text => "+" ++ text ++ "\n"

def renderRange (start count : Nat) : String := toString start ++ "," ++ toString count

def Hunk.header (hunk : Hunk) : String :=
  "@@ -" ++ renderRange hunk.oldStart hunk.oldLines.length ++
    " +" ++ renderRange hunk.newStart hunk.newLines.length ++ " @@\n"

def Hunk.render (hunk : Hunk) : String :=
  hunk.header ++ String.join (hunk.lines.map Line.render)

/-- Equal texts have an empty diff. -/
def Changeset.unified (changeset : Changeset) (path old new : String) : String :=
  if old = new then ""
  else
    "--- a/" ++ path ++ "\n+++ b/" ++ path ++ "\n" ++
      String.join ((hunks (changeset.align old new)).map Hunk.render)

end Verbatim.Diff
