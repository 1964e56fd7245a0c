import Verbatim.Diff.Changeset

/-! Hunks: stretches of an alignment that hold changes and a little context around them. -/

namespace Verbatim.Diff

def contextLines : Nat := 3

/-- The places from `start` up to, but not including, `stop` of an alignment. -/
structure Extent where
  start : Nat
  stop : Nat
  deriving DecidableEq, Repr

def changedPlaces (aligned : List Line) : List Nat :=
  (List.range aligned.length).filter fun place => (aligned[place]?).any Line.isChange

def Extent.around (context length place : Nat) : Extent :=
  ⟨place - context, min (place + context + 1) length⟩

/-- Put an extent in front of others. Extents that touch become one. -/
def Extent.join (first : Extent) : List Extent → List Extent
  | [] => [first]
  | next :: rest =>
    if next.start ≤ first.stop then ⟨first.start, next.stop⟩ :: rest else first :: next :: rest

def hunkExtents (context : Nat) (aligned : List Line) : List Extent :=
  ((changedPlaces aligned).map (Extent.around context aligned.length)).foldr Extent.join []

/-- A hunk replaces its old lines by its new lines. A start is the number of the first line, or
when there is none, of the line after which the hunk belongs. -/
structure Hunk where
  oldStart : Nat
  newStart : Nat
  lines : List Line
  deriving DecidableEq, Repr

namespace Hunk

def oldLines (hunk : Hunk) : List String := oldSide hunk.lines

def newLines (hunk : Hunk) : List String := newSide hunk.lines

def firstLine (before count : Nat) : Nat := if count = 0 then before else before + 1

def ofExtent (aligned : List Line) (extent : Extent) : Hunk :=
  let before := aligned.take extent.start
  let lines := (aligned.drop extent.start).take (extent.stop - extent.start)
  ⟨firstLine (oldSide before).length (oldSide lines).length,
    firstLine (newSide before).length (newSide lines).length, lines⟩

end Hunk

def hunks (aligned : List Line) : List Hunk :=
  (hunkExtents contextLines aligned).map (Hunk.ofExtent aligned)

end Verbatim.Diff
