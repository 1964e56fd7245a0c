import Verbatim.Diff.Changeset

/-! A comparison that keeps common lines of both texts, found with a table of scores. -/

namespace Verbatim.Diff

/-! The table of scores has a row for each old line and a column for each new line. Equal lines
score one more than their upper left neighbour, but always one on the upper and left edge; other
cells take the better of the cells above and to the left. -/

def firstRow (line : String) : List String → Nat → List Nat
  | [], _ => []
  | other :: others, left =>
    let score := if line = other then 1 else left
    score :: firstRow line others score

/-- `corner` is the score above and to the left of the next cell, absent in the first column. -/
def nextRow (line : String) : List String → List Nat → Option Nat → Nat → List Nat
  | other :: others, above :: aboves, corner, left =>
    let score :=
      if line = other then match corner with
        | none => 1
        | some diagonal => diagonal + 1
      else match corner with
        | none => above
        | some _ => max left above
    score :: nextRow line others aboves (some above) score
  | _, _, _, _ => []

def scoreRows (new : List String) : List String → Option (List Nat) → List (List Nat)
  | [], _ => []
  | line :: rest, previous =>
    let row := match previous with
      | none => firstRow line new 0
      | some above => nextRow line new above none 0
    row :: scoreRows new rest (some row)

structure ScoreTable where
  old : Array String
  new : Array String
  rows : Array (Array Nat)

namespace ScoreTable

def ofLines (old new : List String) : ScoreTable :=
  ⟨old.toArray, new.toArray, ((scoreRows new old none).map List.toArray).toArray⟩

def score (table : ScoreTable) (row column : Nat) : Nat :=
  ((table.rows[row]?).bind (·[column]?)).getD 0

/-- Walk back from the last cell and collect lines that are equal. In the first column the cell to
the left is taken to be the last one of the row above. -/
def commonLines (table : ScoreTable) : Nat → Nat → List String → List String
  | 0, _, found => found
  | _, 0, found => found
  | row + 1, column + 1, found =>
    if table.old[row]? = table.new[column]? then
      commonLines table row column ((table.old[row]?).toList ++ found)
    else if row = 0 ∧ column = 0 then found
    else
      let left :=
        if column = 0 then table.score (row - 1) (table.new.size - 1)
        else table.score row (column - 1)
      if row = 0 ∨ table.score (row - 1) column < left then
        commonLines table (row + 1) column found
      else commonLines table row (column + 1) found
  termination_by row column => row + column

end ScoreTable

/-- Lines found in `common` stay; before each of them, removed lines come before added ones. -/
def tagLines : List String → List String → List String → List Line
  | [], new, _ => new.map .added
  | old, [], _ => old.map .removed
  | old, new, [] => old.map .removed ++ new.map .added
  | a :: old, b :: new, c :: common =>
    if a = c then
      if b = c then .same a :: tagLines old new common
      else .added b :: tagLines (a :: old) new (c :: common)
    else .removed a :: tagLines old (b :: new) (c :: common)
  termination_by old new => old.length + new.length

/-- The lines of the empty text are none. -/
def comparedLines (text : String) : List String := rereadLines (Text.splitString '\n' text)

def taggedLines (old new : String) : List Line :=
  let oldLines := Text.splitString '\n' old
  let newLines := Text.splitString '\n' new
  let table := ScoreTable.ofLines oldLines newLines
  let common := table.commonLines oldLines.length newLines.length []
  tagLines (comparedLines old) (comparedLines new) (rereadLines common)

namespace Segment

/-- Put a line in front of segments. It joins a first segment that has the same fate. -/
def cons : Line → List Segment → List Segment
  | .same text, .same more :: rest => .same (text ++ "\n" ++ more) :: rest
  | .same text, rest => .same text :: rest
  | .removed text, .removed more :: rest => .removed (text ++ "\n" ++ more) :: rest
  | .removed text, rest => .removed text :: rest
  | .added text, .added more :: rest => .added (text ++ "\n" ++ more) :: rest
  | .added text, rest => .added text :: rest

def ofLines (lines : List Line) : List Segment := lines.foldr cons []

end Segment

/-! Whatever the common lines are, both texts can be read off their segments. -/

theorem oldSide_tagLines (old new common : List String) :
    oldSide (tagLines old new common) = old := by
  fun_induction tagLines old new common <;> simp_all [oldSide, oldSide_append]

theorem newSide_tagLines (old new common : List String) :
    newSide (tagLines old new common) = new := by
  fun_induction tagLines old new common <;> simp_all [newSide, newSide_append]

/-- The pieces join to the same text. -/
def JoinAlike (first second : List String) : Prop :=
  (first = [] ↔ second = []) ∧
    Text.joinWith '\n' (first.map String.toList) = Text.joinWith '\n' (second.map String.toList)

namespace JoinAlike

variable {first second : List String}

protected theorem refl (pieces : List String) : JoinAlike pieces pieces := ⟨.rfl, rfl⟩

theorem cons (text : String) (alike : JoinAlike first second) :
    JoinAlike (text :: first) (text :: second) := by
  constructor
  · simp
  · by_cases nothing : first = []
    · rw [nothing, alike.1.1 nothing]
    · have firstPieces : first.map String.toList ≠ [] := by simpa using nothing
      have secondPieces : second.map String.toList ≠ [] := by simpa using mt alike.1.2 nothing
      rw [List.map_cons, List.map_cons, Text.joinWith_cons_of_ne_nil _ _ firstPieces,
        Text.joinWith_cons_of_ne_nil _ _ secondPieces, alike.2]

theorem merge (text more : String) (alike : JoinAlike (more :: first) second) :
    JoinAlike ((text ++ "\n" ++ more) :: first) (text :: second) := by
  have pieces := alike.cons text
  constructor
  · simp
  · rw [← pieces.2]
    cases first <;> simp [Text.joinWith]

end JoinAlike

namespace Segment

theorem oldTexts_cons (line : Line) {segments : List Segment} {lines : List Line}
    (alike : JoinAlike (oldTexts segments) (oldSide lines)) :
    JoinAlike (oldTexts (cons line segments)) (oldSide (line :: lines)) := by
  fun_cases cons line segments <;> simp only [oldTexts, oldSide] at alike ⊢
  all_goals first
    | exact alike.merge _ _
    | exact alike.cons _
    | exact alike

theorem newTexts_cons (line : Line) {segments : List Segment} {lines : List Line}
    (alike : JoinAlike (newTexts segments) (newSide lines)) :
    JoinAlike (newTexts (cons line segments)) (newSide (line :: lines)) := by
  fun_cases cons line segments <;> simp only [newTexts, newSide] at alike ⊢
  all_goals first
    | exact alike.merge _ _
    | exact alike.cons _
    | exact alike

theorem oldTexts_ofLines (lines : List Line) :
    JoinAlike (oldTexts (ofLines lines)) (oldSide lines) := by
  induction lines with
  | nil => exact .refl []
  | cons line rest induction => exact oldTexts_cons line induction

theorem newTexts_ofLines (lines : List Line) :
    JoinAlike (newTexts (ofLines lines)) (newSide lines) := by
  induction lines with
  | nil => exact .refl []
  | cons line rest induction => exact newTexts_cons line induction

end Segment

theorem joins_of_alike {pieces : List String} {text : String}
    (alike : JoinAlike pieces (comparedLines text)) : Joins pieces text := by
  rw [Joins]
  split
  next empty =>
    apply alike.1.2
    rw [empty]
    rfl
  next filled =>
    have lines : comparedLines text = Text.splitString '\n' text :=
      if_neg (mt (Text.splitString_eq_singleton_iff _ text).1 filled)
    rw [alike.2, lines, Text.joinWith_splitString]

/-- The segments of common lines and what stands between them. -/
def Changeset.standard : Changeset where
  segments old new := Segment.ofLines (taggedLines old new)
  old_joins old new := by
    apply joins_of_alike
    have alike := Segment.oldTexts_ofLines (taggedLines old new)
    rwa [taggedLines, oldSide_tagLines] at alike
  new_joins old new := by
    apply joins_of_alike
    have alike := Segment.newTexts_ofLines (taggedLines old new)
    rwa [taggedLines, newSide_tagLines] at alike

end Verbatim.Diff
