import Verbatim.Text.Lines

/-! What becomes of the lines when one text is turned into another. A comparison of the two
texts gives segments of lines that stay, go or come, and the segments are taken apart into their
lines. How the comparison finds its segments is left open: only that both texts can be read off
them counts. -/

namespace Verbatim.Diff

inductive Line where
  | same (text : String)
  | removed (text : String)
  | added (text : String)
  deriving DecidableEq, Repr

namespace Line

def text : Line → String
  | .same text | .removed text | .added text => text

def isChange : Line → Bool
  | .same _ => false
  | .removed _ | .added _ => true

end Line

def oldSide : List Line → List String
  | [] => []
  | .same text :: rest | .removed text :: rest => text :: oldSide rest
  | .added _ :: rest => oldSide rest

def newSide : List Line → List String
  | [] => []
  | .same text :: rest | .added text :: rest => text :: newSide rest
  | .removed _ :: rest => newSide rest

/-- Neighbouring lines with the same fate, joined by line breaks. -/
inductive Segment where
  | same (text : String)
  | removed (text : String)
  | added (text : String)
  deriving DecidableEq, Repr

namespace Segment

def lines : Segment → List Line
  | .same text => (Text.splitString '\n' text).map .same
  | .removed text => (Text.splitString '\n' text).map .removed
  | .added text => (Text.splitString '\n' text).map .added

def oldTexts : List Segment → List String
  | [] => []
  | .same text :: rest | .removed text :: rest => text :: oldTexts rest
  | .added _ :: rest => oldTexts rest

def newTexts : List Segment → List String
  | [] => []
  | .same text :: rest | .added text :: rest => text :: newTexts rest
  | .removed _ :: rest => newTexts rest

end Segment

/-- The pieces give back the text when line breaks are put between them. The empty text is no piece
rather than an empty one. -/
def Joins (pieces : List String) (text : String) : Prop :=
  if text = "" then pieces = []
  else Text.joinWith '\n' (pieces.map String.toList) = text.toList

/-- A way to compare texts, such that both of them can be read off the segments. -/
structure Changeset where
  segments : (old new : String) → List Segment
  old_joins : ∀ old new, Joins (Segment.oldTexts (segments old new)) old
  new_joins : ∀ old new, Joins (Segment.newTexts (segments old new)) new

/-- A final line break is no line of its own when both texts have one. -/
def comparedTexts (old new : String) : String × String :=
  if old.toList.getLast? = some '\n' ∧ new.toList.getLast? = some '\n' then
    (String.ofList old.toList.dropLast, String.ofList new.toList.dropLast)
  else (old, new)

def Changeset.align (changeset : Changeset) (old new : String) : List Line :=
  let (old, new) := comparedTexts old new
  (changeset.segments old new).flatMap Segment.lines

/-- Lines as a joined text would give them back: the empty text has none. -/
def rereadLines (lines : List String) : List String := if lines = [""] then [] else lines

/-! The sides of an alignment, put together from the sides of its parts. -/

theorem oldSide_append (first second : List Line) :
    oldSide (first ++ second) = oldSide first ++ oldSide second := by
  induction first with
  | nil => rfl
  | cons line rest induction => cases line <;> simp [oldSide, induction]

theorem newSide_append (first second : List Line) :
    newSide (first ++ second) = newSide first ++ newSide second := by
  induction first with
  | nil => rfl
  | cons line rest induction => cases line <;> simp [newSide, induction]

@[simp]
theorem oldSide_map_same (texts : List String) : oldSide (texts.map .same) = texts := by
  induction texts with
  | nil => rfl
  | cons text rest induction => simp [oldSide, induction]

@[simp]
theorem newSide_map_same (texts : List String) : newSide (texts.map .same) = texts := by
  induction texts with
  | nil => rfl
  | cons text rest induction => simp [newSide, induction]

@[simp]
theorem oldSide_map_removed (texts : List String) : oldSide (texts.map .removed) = texts := by
  induction texts with
  | nil => rfl
  | cons text rest induction => simp [oldSide, induction]

@[simp]
theorem newSide_map_removed (texts : List String) : newSide (texts.map .removed) = [] := by
  induction texts with
  | nil => rfl
  | cons text rest induction => simp [newSide, induction]

@[simp]
theorem oldSide_map_added (texts : List String) : oldSide (texts.map .added) = [] := by
  induction texts with
  | nil => rfl
  | cons text rest induction => simp [oldSide, induction]

@[simp]
theorem newSide_map_added (texts : List String) : newSide (texts.map .added) = texts := by
  induction texts with
  | nil => rfl
  | cons text rest induction => simp [newSide, induction]

end Verbatim.Diff
