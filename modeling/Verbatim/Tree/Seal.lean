import Verbatim.ParseError
import Verbatim.Tree.Node

/-! Sealing compares a tree with its text, piece by piece in the order of printing, and notes at
every node where it was found. -/

namespace Verbatim

/-- What is left of a text, and where that is. -/
structure Scan where
  rest : List Char
  offset : Nat
  position : Position
  deriving DecidableEq, Repr

namespace Scan

def ofText (text : String) : Scan := ⟨text.toList, 0, .start⟩

def error (scan : Scan) (fault : ParseFault) : ParseError :=
  ⟨none, fault, scan.offset, scan.position⟩

/-- What a list leaves behind a given front. -/
def dropFront? : List Char → List Char → Option (List Char)
  | [], cs => some cs
  | _ :: _, [] => none
  | wanted :: more, c :: rest => if wanted = c then dropFront? more rest else none

theorem dropFront?_eq_some_iff (front cs rest : List Char) :
    dropFront? front cs = some rest ↔ cs = front ++ rest := by
  fun_induction dropFront? front cs <;> simp_all [eq_comm]

def pass (scan : Scan) (piece : String) : Except ParseError Scan :=
  match dropFront? piece.toList scan.rest with
  | some rest =>
    .ok ⟨rest, scan.offset + piece.utf8ByteSize, scan.position.advance piece⟩
  | none => .error (scan.error (.mismatch piece))

def passAll (scan : Scan) (pieces : List String) : Except ParseError Scan :=
  pieces.foldlM pass scan

end Scan

namespace Node

def spanBetween (start stop : Nat) : Span := ⟨start, start + (stop - start), Nat.le_add_right ..⟩

mutual

def sealFrom (source : String) (scan : Scan) : Node → Except ParseError (Node × Scan)
  | ⟨head, children⟩ => do
    match head.leading with
    | none => .error (scan.error (.unformatted head.kind))
    | some leading =>
      let front ← scan.passAll leading.pieces
      let inside ← front.passAll head.text.toList
      let (children, behind) ← sealAllFrom source inside children
      let after ← behind.passAll head.trailing.pieces
      let origin := ⟨source, spanBetween scan.offset after.offset, front.position⟩
      return (⟨{ head with origin := some origin }, children⟩, after)

def sealAllFrom (source : String) (scan : Scan) :
    List Node → Except ParseError (List Node × Scan)
  | [] => .ok ([], scan)
  | node :: rest => do
    let (node, scan) ← node.sealFrom source scan
    let (rest, scan) ← sealAllFrom source scan rest
    return (node :: rest, scan)

end

/-- The tree with an origin at every node, provided its pieces are the text and all formatting is
explicit. -/
def sealAgainst (root : Node) (source : String) : Except ParseError Node := do
  let (sealed, scan) ← root.sealFrom source (.ofText source)
  if scan.rest.isEmpty then return sealed
  else .error (scan.error .uncovered)

end Node

end Verbatim
