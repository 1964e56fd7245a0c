import Mathlib.Data.List.Basic
import Verbatim.Proofs.Text.Pieces
import Verbatim.Proofs.Workbench.Places

/-! Where paths lead. A path is followed piece by piece; its last piece is the name of the file
that it leads to, however it gets there, and a name added to the path of a folder leads to what
the folder holds under this name. -/

namespace Verbatim

namespace Text

end Text

/-! ## Names -/

namespace Path

/-- A name is one piece of a path, and no special one. -/
def isName (name : String) : Bool :=
  name ≠ "" && name ≠ "." && name ≠ ".." && !name.toList.contains '/'

end Path

/-! ## Following a path -/

namespace Disk

variable {disk : Disk}

def follow (disk : Disk) : List String → Except AccessFault (List String)
  | "" :: pieces => pieces.foldlM disk.step []
  | pieces => pieces.foldlM disk.step disk.working

end Disk

end Verbatim
