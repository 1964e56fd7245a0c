import Mathlib.Data.List.Basic
import Verbatim.Diff.Unified
import Verbatim.Proofs.Text.Pieces

/-! Unified diffs as they are read and applied. A file is a sequence of lines, each ended by a
line break. A hunk says how many lines it takes on either side and where they stand; it fits a
file if all lines it keeps or removes are found there. A diff that is written is read again as
the hunks it was written from. -/

namespace Verbatim.Diff

/-! ## Files as lines -/

def endedLines? (text : String) : Option (List String) :=
  let pieces := Text.splitString '\n' text
  if pieces.getLast? = some "" then some pieces.dropLast else none

def endLines (lines : List String) : String := String.join (lines.map (· ++ "\n"))

/-! ## Reading -/

def readNumber (cs : List Char) : Option (Nat × List Char) :=
  let digits := cs.takeWhile Char.isDigit
  if digits.isEmpty then none
  else some (Nat.ofDigitChars 10 digits 0, cs.dropWhile Char.isDigit)

/-- A start and a count. -/
def readRange (cs : List Char) : Option ((Nat × Nat) × List Char) := do
  let (start, rest) ← readNumber cs
  let rest ← rest.dropPrefix? [',']
  let (count, rest) ← readNumber rest
  return ((start, count), rest)

structure HunkHeader where
  old : Nat × Nat
  new : Nat × Nat
  deriving DecidableEq, Repr

/-- Whatever stands behind the ranges is a remark. -/
def HunkHeader.read? (line : String) : Option HunkHeader := do
  let rest ← line.toList.dropPrefix? "@@ -".toList
  let (old, rest) ← readRange rest
  let rest ← rest.dropPrefix? " +".toList
  let (new, rest) ← readRange rest
  let _ ← rest.dropPrefix? " @@".toList
  return ⟨old, new⟩

def Line.ofChars? : List Char → Option Line
  | ' ' :: text => some (.same (String.ofList text))
  | '-' :: text => some (.removed (String.ofList text))
  | '+' :: text => some (.added (String.ofList text))
  | _ => none

def Line.read? (line : String) : Option Line := ofChars? line.toList

/-- The lines of a hunk of which so many are still wanted on either side, and the hunks behind
it. -/
def readHunks : (oldWanted newWanted : Nat) → List String → Option (List Line × List Hunk)
  | 0, 0, [] => some ([], [])
  | 0, 0, header :: rest => do
    let header ← HunkHeader.read? header
    let (lines, hunks) ← readHunks header.old.2 header.new.2 rest
    return ([], ⟨header.old.1, header.new.1, lines⟩ :: hunks)
  | _, _, [] => none
  | oldWanted, newWanted, line :: rest => do
    let line ← Line.read? line
    let old := (oldSide [line]).length
    let new := (newSide [line]).length
    if old ≤ oldWanted ∧ new ≤ newWanted then
      let (lines, hunks) ← readHunks (oldWanted - old) (newWanted - new) rest
      return (line :: lines, hunks)
    else none

/-- The changes of one file. -/
structure Patch where
  oldName : String
  newName : String
  hunks : List Hunk
  deriving DecidableEq, Repr

def Patch.read? (text : String) : Option Patch := do
  match ← endedLines? text with
  | oldLine :: newLine :: lines =>
    let oldName ← oldLine.toList.dropPrefix? "--- ".toList
    let newName ← newLine.toList.dropPrefix? "+++ ".toList
    let (_, hunks) ← readHunks 0 0 lines
    return ⟨String.ofList oldName, String.ofList newName, hunks⟩
  | _ => none

/-! ## Applying -/

/-- How many lines stand in front of a range. Lines are numbered from one on; an empty range stands
behind the line it names. -/
def linesInFront? (start count : Nat) : Option Nat :=
  if count = 0 then some start else if start = 0 then none else some (start - 1)

/-- Apply hunks to the lines that are left behind so many lines of either side. The lines
between two hunks are as many on both sides. -/
def applyHunks : (oldPassed newPassed : Nat) → List Hunk → List String → Option (List String)
  | _, _, [], lines => some lines
  | oldPassed, newPassed, hunk :: hunks, lines => do
    let oldFront ← linesInFront? hunk.oldStart hunk.oldLines.length
    let newFront ← linesInFront? hunk.newStart hunk.newLines.length
    let between := oldFront - oldPassed
    if oldFront = oldPassed + between ∧ newFront = newPassed + between ∧ between ≤ lines.length then
      let rest ← (lines.drop between).dropPrefix? hunk.oldLines
      let patched ← applyHunks (oldFront + hunk.oldLines.length) (newFront + hunk.newLines.length)
        hunks rest
      return lines.take between ++ hunk.newLines ++ patched
    else none

def Patch.patched? (patch : Patch) (text : String) : Option String := do
  let lines ← endedLines? text
  return endLines (← applyHunks 0 0 patch.hunks lines)

/-! ## The other way round -/

def Line.reversed : Line → Line
  | .same text => .same text
  | .removed text => .added text
  | .added text => .removed text

def Hunk.reversed (hunk : Hunk) : Hunk :=
  ⟨hunk.newStart, hunk.oldStart, hunk.lines.map Line.reversed⟩

def Patch.reversed (patch : Patch) : Patch :=
  ⟨patch.newName, patch.oldName, patch.hunks.map Hunk.reversed⟩

/-! ## Texts and their lines -/

theorem splitString_endLines {lines : List String} (plain : ∀ line ∈ lines, '\n' ∉ line.toList) :
    Text.splitString '\n' (endLines lines) = lines ++ [""] := by
  induction lines with
  | nil => rfl
  | cons line rest induction =>
      have others := induction fun other member => plain other (List.mem_cons_of_mem _ member)
      have first := Text.splitAt_eq_singleton (plain line List.mem_cons_self)
      have text : (endLines (line :: rest)).toList =
          line.toList ++ '\n' :: (endLines rest).toList := by
        simp [endLines]
      rw [Text.splitString] at others ⊢
      rw [text, Text.splitAt_append_cons, first, List.map_append, others]
      simp

theorem endedLines?_endLines {lines : List String} (plain : ∀ line ∈ lines, '\n' ∉ line.toList) :
    endedLines? (endLines lines) = some lines := by
  simp [endedLines?, splitString_endLines plain]

theorem not_mem_of_mem_splitString {text line : String}
    (member : line ∈ Text.splitString '\n' text) : '\n' ∉ line.toList := by
  obtain ⟨piece, isPiece, rfl⟩ := List.mem_map.1 member
  rw [String.toList_ofList]
  exact Text.not_mem_of_mem_splitAt isPiece

theorem not_mem_of_endedLines? {text line : String} {lines : List String}
    (ended : endedLines? text = some lines) (member : line ∈ lines) : '\n' ∉ line.toList := by
  unfold endedLines? at ended
  simp only at ended
  split at ended
  · cases ended
    exact not_mem_of_mem_splitString (List.dropLast_subset _ member)
  · cases ended

theorem endLines_map_ofList_splitAt (cs : List Char) :
    (endLines ((Text.splitAt '\n' cs).map String.ofList)).toList = cs ++ ['\n'] := by
  have joined (pieces : List (List Char)) (nonempty : pieces ≠ []) :
      (endLines (pieces.map String.ofList)).toList = Text.joinWith '\n' pieces ++ ['\n'] := by
    induction pieces with
    | nil => exact absurd rfl nonempty
    | cons piece rest induction =>
        cases rest with
        | nil => simp [endLines, Text.joinWith]
        | cons next rest =>
            have others := induction (by simp)
            rw [Text.joinWith_cons_of_ne_nil _ _ (by simp)]
            simp [endLines] at others ⊢
            exact others
  rw [joined _ (Text.splitAt_ne_nil _ _), Text.joinWith_splitAt]

def linesOf (text : String) : List String :=
  (Text.splitAt '\n' text.toList.dropLast).map String.ofList

theorem not_mem_of_mem_linesOf {text line : String} (member : line ∈ linesOf text) :
    '\n' ∉ line.toList := by
  obtain ⟨piece, isPiece, rfl⟩ := List.mem_map.1 member
  rw [String.toList_ofList]
  exact Text.not_mem_of_mem_splitAt isPiece

theorem endLines_linesOf {text : String} (ends : text.toList.getLast? = some '\n') :
    endLines (linesOf text) = text := by
  apply String.toList_inj.1
  rw [linesOf, endLines_map_ofList_splitAt]
  exact List.dropLast_append_getLast? _ ends

theorem endedLines?_eq_linesOf {text : String} (ends : text.toList.getLast? = some '\n') :
    endedLines? text = some (linesOf text) := by
  have read := endedLines?_endLines fun line (member : line ∈ linesOf text) =>
    not_mem_of_mem_linesOf member
  rwa [endLines_linesOf ends] at read

theorem linesOf_eq_iff {text : String} (ends : text.toList.getLast? = some '\n') :
    linesOf text = [""] ↔ text = "\n" := by
  constructor
  · intro lines
    rw [← endLines_linesOf ends, lines]
    rfl
  · rintro rfl
    rfl

theorem linesOf_injective {first second : String} (firstEnds : first.toList.getLast? = some '\n')
    (secondEnds : second.toList.getLast? = some '\n') (same : linesOf first = linesOf second) :
    first = second := by
  rw [← endLines_linesOf firstEnds, same, endLines_linesOf secondEnds]

/-! ## What is written is read -/

theorem dropPrefix?_append {α : Type} [BEq α] [ReflBEq α] (front rest : List α) :
    (front ++ rest).dropPrefix? front = some rest :=
  List.dropPrefix?_append_of_beq rest BEq.rfl

theorem readNumber_repr (number : Nat) {rest : List Char}
    (stops : rest.head?.any Char.isDigit = false) :
    readNumber (number.repr.toList ++ rest) = some (number, rest) := by
  have digits : ∀ c ∈ number.repr.toList, c.isDigit = true := by
    intro c member
    rw [Nat.repr_eq_ofList_toDigits, String.toList_ofList] at member
    exact Nat.isDigit_of_mem_toDigits (by decide) (by decide) member
  have value : Nat.ofDigitChars 10 number.repr.toList 0 = number := by
    rw [Nat.repr_eq_ofList_toDigits, String.toList_ofList]
    exact Nat.ofDigitChars_toDigits (by decide) (by decide)
  have nonempty : number.repr.toList ≠ [] := by
    rw [Nat.repr_eq_ofList_toDigits, String.toList_ofList]
    exact Nat.toDigits_ne_nil
  have front : (number.repr.toList ++ rest).takeWhile Char.isDigit = number.repr.toList := by
    rw [List.takeWhile_append_of_pos digits]
    cases rest with
    | nil => simp
    | cons c rest => simp_all
  have back : (number.repr.toList ++ rest).dropWhile Char.isDigit = rest := by
    rw [List.dropWhile_append_of_pos digits]
    cases rest with
    | nil => rfl
    | cons c rest => simp_all
  rw [readNumber]
  simp only [front, back, value, List.isEmpty_eq_false_iff.2 nonempty, Bool.false_eq_true, if_false]

theorem readRange_renderRange (start count : Nat) {rest : List Char}
    (stops : rest.head?.any Char.isDigit = false) :
    readRange ((renderRange start count).toList ++ rest) = some ((start, count), rest) := by
  have text : (renderRange start count).toList ++ rest =
      start.repr.toList ++ ([','] ++ (count.repr.toList ++ rest)) := by
    simp [renderRange, Nat.toString_eq_repr]
  rw [text, readRange, readNumber_repr start (by rfl)]
  simp only [Option.bind_eq_bind, Option.bind_some, dropPrefix?_append]
  rw [readNumber_repr count stops]
  rfl

/-- The first line of a hunk, and what it is followed by. -/
def Hunk.headerLine (hunk : Hunk) : String :=
  "@@ -" ++ renderRange hunk.oldStart hunk.oldLines.length ++
    " +" ++ renderRange hunk.newStart hunk.newLines.length ++ " @@"

def Line.written : Line → String
  | .same text => " " ++ text
  | .removed text => "-" ++ text
  | .added text => "+" ++ text

def Hunk.written (hunk : Hunk) : List String := hunk.headerLine :: hunk.lines.map Line.written

theorem HunkHeader.read?_headerLine (hunk : Hunk) :
    HunkHeader.read? hunk.headerLine =
      some ⟨(hunk.oldStart, hunk.oldLines.length), (hunk.newStart, hunk.newLines.length)⟩ := by
  have text : hunk.headerLine.toList = "@@ -".toList ++
      ((renderRange hunk.oldStart hunk.oldLines.length).toList ++ (" +".toList ++
        ((renderRange hunk.newStart hunk.newLines.length).toList ++ (" @@".toList ++ [])))) := by
    simp [Hunk.headerLine]
  rw [HunkHeader.read?, text]
  simp only [Option.bind_eq_bind, Option.bind_some, dropPrefix?_append]
  rw [readRange_renderRange _ _ (by rfl)]
  simp only [Option.bind_some, dropPrefix?_append]
  rw [readRange_renderRange _ _ (by rfl)]
  simp only [Option.bind_some, dropPrefix?_append]
  rfl

theorem Line.read?_written (line : Line) : Line.read? line.written = some line := by
  cases line <;> simp [Line.read?, Line.written, Line.ofChars?]

theorem readHunks_lines {hunks : List Hunk} {rest : List String}
    (behind : readHunks 0 0 rest = some ([], hunks)) (lines : List Line) :
    readHunks (oldSide lines).length (newSide lines).length (lines.map Line.written ++ rest) =
      some (lines, hunks) := by
  induction lines with
  | nil => exact behind
  | cons line lines induction =>
      have read := Line.read?_written line
      cases line <;>
        simp_all [oldSide, newSide, readHunks]

theorem readHunks_written (hunks : List Hunk) :
    readHunks 0 0 (hunks.flatMap Hunk.written) = some ([], hunks) := by
  induction hunks with
  | nil => rfl
  | cons hunk hunks induction =>
      rw [List.flatMap_cons, Hunk.written, List.cons_append, readHunks,
        HunkHeader.read?_headerLine]
      simp only [Option.bind_eq_bind, Option.bind_some]
      rw [Hunk.oldLines, Hunk.newLines, readHunks_lines induction]
      rfl

end Verbatim.Diff
