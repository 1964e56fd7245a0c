import Verbatim.Text.Blank

/-! Texts as lines, and the margins of lines. -/

namespace Verbatim.Text

/-- The pieces between separators. There is always one piece more than there are separators. -/
def splitAt (separator : Char) : List Char → List (List Char)
  | [] => [[]]
  | c :: rest =>
    if c = separator then [] :: splitAt separator rest
    else match splitAt separator rest with
      | [] => [[c]]
      | piece :: pieces => (c :: piece) :: pieces

theorem splitAt_ne_nil (separator : Char) (cs : List Char) : splitAt separator cs ≠ [] := by
  cases cs with
  | nil => simp [splitAt]
  | cons c rest =>
    simp only [splitAt]
    repeat' split
    all_goals simp

def joinWith (separator : Char) : List (List Char) → List Char
  | [] => []
  | [piece] => piece
  | piece :: next :: pieces => piece ++ separator :: joinWith separator (next :: pieces)

theorem joinWith_cons_of_ne_nil (separator : Char) (piece : List Char)
    {pieces : List (List Char)} (nonempty : pieces ≠ []) :
    joinWith separator (piece :: pieces) = piece ++ separator :: joinWith separator pieces := by
  cases pieces with
  | nil => exact absurd rfl nonempty
  | cons next rest => rfl

theorem joinWith_splitAt (separator : Char) (cs : List Char) :
    joinWith separator (splitAt separator cs) = cs := by
  induction cs with
  | nil => rfl
  | cons c rest induction =>
    simp only [splitAt]
    split
    next equal =>
      rw [joinWith_cons_of_ne_nil _ _ (splitAt_ne_nil _ _), induction, equal]
      rfl
    next =>
      split
      next none => exact absurd none (splitAt_ne_nil _ _)
      next piece pieces some =>
        rw [some] at induction
        cases pieces with
        | nil => simpa [joinWith] using induction
        | cons next more =>
          rw [joinWith_cons_of_ne_nil _ _ (by simp)] at induction ⊢
          simp [induction]

def splitString (separator : Char) (text : String) : List String :=
  (splitAt separator text.toList).map String.ofList

theorem joinWith_splitString (separator : Char) (text : String) :
    joinWith separator ((splitString separator text).map String.toList) = text.toList := by
  have pieces : (splitString separator text).map String.toList = splitAt separator text.toList := by
    rw [splitString, List.map_map]
    exact List.map_id'' (fun _ => String.toList_ofList) _
  rw [pieces, joinWith_splitAt]

theorem splitString_eq_singleton_iff (separator : Char) (text : String) :
    splitString separator text = [""] ↔ text = "" := by
  constructor
  · intro pieces
    have joined := joinWith_splitString separator text
    rw [pieces] at joined
    rw [← String.toList_inj, ← joined]
    rfl
  · rintro rfl
    rfl

/-- A line ends at a line break, which may be preceded by one carriage return; neither belongs to
the line. What follows the last line break is a line unless it is empty. -/
def linesOfPieces : List (List Char) → List (List Char)
  | [] => []
  | [final] => if final.isEmpty then [] else [final]
  | piece :: next :: pieces => dropReturn piece :: linesOfPieces (next :: pieces)
where
  dropReturn (piece : List Char) : List Char :=
    if piece.getLast? = some '\r' then piece.dropLast else piece

def lines (cs : List Char) : List (List Char) := linesOfPieces (splitAt '\n' cs)

example : lines "a\r\nb\r".toList = ["a".toList, "b\r".toList] := by decide

def isMargin (c : Char) : Bool := c = ' ' || c = '\t'

def lastLine (cs : List Char) : List Char := (splitAt '\n' cs).getLastD []

def lastLineIndent (text : String) : String :=
  String.ofList ((lastLine text.toList).takeWhile isMargin)

def byteCount (cs : List Char) : Nat := cs.foldr (fun c count => c.utf8Size + count) 0

/-- Cut `size` bytes off the front. Nothing is left when the cut falls inside a character or past
the end. -/
def dropBytes : Nat → List Char → List Char
  | 0, cs => cs
  | _ + 1, [] => []
  | size + 1, c :: rest =>
    if c.utf8Size ≤ size + 1 then dropBytes (size + 1 - c.utf8Size) rest else []

def marginBytes (line : List Char) : Nat := byteCount (line.takeWhile isBlank)

def dropBlankEnds (rows : List (List Char)) : List (List Char) :=
  ((rows.dropWhile isBlankText).reverse.dropWhile isBlankText).reverse

/-- The smallest margin of the lines that are not blank. -/
def commonMargin (rows : List (List Char)) : Nat :=
  ((rows.filter fun row => !isBlankText row).map marginBytes).min?.getD 0

def trimRows (rows : List (List Char)) : List (List Char) :=
  let body := dropBlankEnds rows
  body.map fun row => trimEnd (dropBytes (commonMargin body) row)

/-- Blank lines at both ends are dropped, and so is the margin that all other lines share. -/
def trimIndent (text : String) : String :=
  String.ofList (joinWith '\n' (trimRows (lines text.toList)))

example : trimIndent "\n    a\n      b\n\n" = "a\n  b" := by decide

end Verbatim.Text
