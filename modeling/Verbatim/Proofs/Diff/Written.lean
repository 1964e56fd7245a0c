import Verbatim.Diff.Alignment
import Verbatim.Proofs.Diff.Applying

/-! Unified diffs as texts. The text of a diff is read as the hunks it was written from, so that
it does to the old file what they do. -/

namespace Verbatim.Diff

/-! ## The text of a diff -/

theorem Line.render_eq (line : Line) : line.render = line.written ++ "\n" := by
  cases line <;> rfl

theorem Hunk.render_eq (hunk : Hunk) : hunk.render = endLines hunk.written := by
  have header : hunk.header = hunk.headerLine ++ "\n" := by
    apply String.toList_inj.1
    simp [Hunk.header, Hunk.headerLine]
  rw [Hunk.render, header, Hunk.written, endLines, List.map_cons, String.join_cons, List.map_map]
  congr 2
  apply List.map_congr_left
  intro line member
  exact line.render_eq

theorem endLines_append (first second : List String) :
    endLines (first ++ second) = endLines first ++ endLines second := by
  simp [endLines]

theorem join_render (hunks : List Hunk) :
    String.join (hunks.map Hunk.render) = endLines (hunks.flatMap Hunk.written) := by
  induction hunks with
  | nil => rfl
  | cons hunk hunks induction =>
      rw [List.map_cons, String.join_cons, List.flatMap_cons, endLines_append, induction,
        Hunk.render_eq]

variable {changeset : Changeset}

def unifiedLines (changeset : Changeset) (path old new : String) : List String :=
  ("--- a/" ++ path) :: ("+++ b/" ++ path) :: (hunks (changeset.align old new)).flatMap Hunk.written

theorem unified_eq {path old new : String} (differ : old ≠ new) :
    changeset.unified path old new = endLines (unifiedLines changeset path old new) := by
  rw [Changeset.unified, if_neg differ, join_render]
  apply String.toList_inj.1
  simp [unifiedLines, endLines]

theorem text_mem_sides {aligned : List Line} {line : Line} (member : line ∈ aligned) :
    line.text ∈ oldSide aligned ∨ line.text ∈ newSide aligned := by
  induction aligned with
  | nil => cases member
  | cons first rest induction =>
      rcases List.mem_cons.1 member with rfl | member
      · cases line <;> simp [Line.text, oldSide, newSide]
      · rcases induction member with found | found
        · cases first <;> simp [oldSide, newSide, found]
        · cases first <;> simp [oldSide, newSide, found]

theorem not_mem_written {line : Line} (plain : '\n' ∉ line.text.toList) :
    '\n' ∉ line.written.toList := by
  cases line <;> simpa [Line.written, Line.text] using plain

theorem not_mem_renderRange (start count : Nat) : '\n' ∉ (renderRange start count).toList := by
  have plain (number : Nat) : '\n' ∉ Nat.toDigits 10 number := by
    intro member
    exact absurd (Nat.isDigit_of_mem_toDigits (by decide) (by decide) member) (by decide)
  simp [renderRange, Nat.toString_eq_repr, plain]

theorem not_mem_headerLine (hunk : Hunk) : '\n' ∉ hunk.headerLine.toList := by
  simp [Hunk.headerLine, not_mem_renderRange]

theorem not_mem_hunks {aligned : List Line} (plain : ∀ line ∈ aligned, '\n' ∉ line.text.toList) :
    ∀ line ∈ (hunks aligned).flatMap Hunk.written, '\n' ∉ line.toList := by
  intro line member
  obtain ⟨hunk, isHunk, inHunk⟩ := List.mem_flatMap.1 member
  obtain ⟨extent, -, rfl⟩ := List.mem_map.1 isHunk
  rcases List.mem_cons.1 inHunk with rfl | inLines
  · exact not_mem_headerLine _
  · obtain ⟨inner, isInner, rfl⟩ := List.mem_map.1 inLines
    exact not_mem_written (plain inner (List.mem_of_mem_drop (List.mem_of_mem_take isInner)))

/-! ## Diffs of two texts -/

theorem splitString_append_break (front back : String) :
    Text.splitString '\n' (front ++ "\n" ++ back) =
      Text.splitString '\n' front ++ Text.splitString '\n' back := by
  have text : (front ++ "\n" ++ back).toList = front.toList ++ '\n' :: back.toList := by simp
  rw [Text.splitString, text, Text.splitAt_append_cons, List.map_append]
  rfl

theorem Joins.lines {pieces : List String} {text : String} (joins : Joins pieces text) :
    pieces.flatMap (Text.splitString '\n') = rereadLines (Text.splitString '\n' text) := by
  have joined (first : String) (rest : List String) (text : String)
      (equal : Text.joinWith '\n' ((first :: rest).map String.toList) = text.toList) :
      (first :: rest).flatMap (Text.splitString '\n') = Text.splitString '\n' text := by
    induction rest generalizing first text with
    | nil =>
        have same : first = text := String.toList_inj.1 equal
        simp [same]
    | cons next rest induction =>
        have others := induction next
          (String.ofList (Text.joinWith '\n' ((next :: rest).map String.toList)))
          (String.toList_ofList).symm
        have cut : text = first ++ "\n" ++
            String.ofList (Text.joinWith '\n' ((next :: rest).map String.toList)) := by
          rw [← String.toList_inj, ← equal]
          simp [Text.joinWith]
        rw [List.flatMap_cons, others, cut, splitString_append_break]
  rw [Joins] at joins
  split at joins
  next empty =>
    rw [joins, empty]
    rfl
  next filled =>
    rw [rereadLines, if_neg (mt (Text.splitString_eq_singleton_iff _ text).1 filled)]
    cases pieces with
    | nil => exact absurd (String.toList_inj.1 joins.symm) filled
    | cons first rest => exact joined first rest text joins

theorem Segment.oldSide_lines (segments : List Segment) :
    oldSide (segments.flatMap Segment.lines) =
      (Segment.oldTexts segments).flatMap (Text.splitString '\n') := by
  induction segments with
  | nil => rfl
  | cons segment rest induction =>
      cases segment <;> simp [Segment.lines, Segment.oldTexts, oldSide_append, induction]

theorem Segment.newSide_lines (segments : List Segment) :
    newSide (segments.flatMap Segment.lines) =
      (Segment.newTexts segments).flatMap (Text.splitString '\n') := by
  induction segments with
  | nil => rfl
  | cons segment rest induction =>
      cases segment <;> simp [Segment.lines, Segment.newTexts, newSide_append, induction]

theorem align_sides {old new : String} (oldEnds : old.toList.getLast? = some '\n')
    (newEnds : new.toList.getLast? = some '\n') :
    oldSide (changeset.align old new) = rereadLines (linesOf old) ∧
      newSide (changeset.align old new) = rereadLines (linesOf new) := by
  have lines (text : String) :
      linesOf text = Text.splitString '\n' (String.ofList text.toList.dropLast) := by
    rw [Text.splitString, String.toList_ofList]
    rfl
  rw [Changeset.align, comparedTexts, if_pos ⟨oldEnds, newEnds⟩, Segment.oldSide_lines,
    Segment.newSide_lines, lines, lines]
  exact ⟨(changeset.old_joins _ _).lines, (changeset.new_joins _ _).lines⟩

theorem mem_of_mem_rereadLines {lines : List String} {line : String}
    (member : line ∈ rereadLines lines) : line ∈ lines := by
  unfold rereadLines at member
  split at member
  · cases member
  · exact member

theorem not_mem_align {old new : String} (oldEnds : old.toList.getLast? = some '\n')
    (newEnds : new.toList.getLast? = some '\n') :
    ∀ line ∈ changeset.align old new, '\n' ∉ line.text.toList := by
  intro line member
  have sides := @align_sides changeset _ _ oldEnds newEnds
  rcases text_mem_sides member with found | found
  · rw [sides.1] at found
    exact not_mem_of_mem_linesOf (mem_of_mem_rereadLines found)
  · rw [sides.2] at found
    exact not_mem_of_mem_linesOf (mem_of_mem_rereadLines found)

theorem Patch.read?_unified {path old new : String} (oldEnds : old.toList.getLast? = some '\n')
    (newEnds : new.toList.getLast? = some '\n') (differ : old ≠ new)
    (oneLine : '\n' ∉ path.toList) :
    Patch.read? (changeset.unified path old new) =
      some ⟨"a/" ++ path, "b/" ++ path, Diff.hunks (changeset.align old new)⟩ := by
  have plain : ∀ line ∈ unifiedLines changeset path old new, '\n' ∉ line.toList := by
    intro line member
    rcases List.mem_cons.1 member with rfl | member
    · simpa using oneLine
    · rcases List.mem_cons.1 member with rfl | member
      · simpa using oneLine
      · exact not_mem_hunks (not_mem_align oldEnds newEnds) line member
  have oldLine : ("--- a/" ++ path).toList = "--- ".toList ++ ("a/" ++ path).toList := by simp
  have newLine : ("+++ b/" ++ path).toList = "+++ ".toList ++ ("b/" ++ path).toList := by simp
  rw [Patch.read?, unified_eq differ, endedLines?_endLines plain, unifiedLines]
  simp only [Option.bind_eq_bind, Option.bind_some, oldLine, newLine, dropPrefix?_append,
    readHunks_written, String.ofList_toList]
  rfl

theorem not_mem_of_read? {text path : String} {patch : Patch} (read : Patch.read? text = some patch)
    (names : patch.oldName = "a/" ++ path) : '\n' ∉ path.toList := by
  unfold Patch.read? at read
  rw [Option.bind_eq_bind, Option.bind_eq_some_iff] at read
  rcases read with ⟨lines, ended, read⟩
  split at read
  next oldLine newLine rest =>
    simp only [Option.bind_eq_bind, Option.bind_eq_some_iff] at read
    rcases read with ⟨oldName, isOldName, newName, -, hunks, -, result⟩
    cases result
    have name : oldName = ("a/" ++ path).toList := by rw [← names, String.toList_ofList]
    obtain ⟨front, split, -⟩ := List.dropPrefix?_eq_some_iff.1 isOldName
    intro member
    apply not_mem_of_endedLines? ended List.mem_cons_self
    rw [split, name]
    simp [member]
  next => cases read

/-- The hunks of an alignment turn the old text into the new one unless one of them is a single
empty line. -/
theorem patched?_hunks_iff {patch : Patch} {aligned : List Line} {old new : String}
    (oldEnds : old.toList.getLast? = some '\n') (newEnds : new.toList.getLast? = some '\n')
    (differ : old ≠ new) (hunksAre : patch.hunks = Diff.hunks aligned)
    (oldIs : oldSide aligned = rereadLines (linesOf old))
    (newIs : newSide aligned = rereadLines (linesOf new)) :
    patch.patched? old = some new ↔ old ≠ "\n" ∧ new ≠ "\n" := by
  have applied := applyHunks_hunks_of_reread oldIs
  rw [newIs] at applied
  have differOfLines : linesOf old ≠ linesOf new :=
    fun same => differ (linesOf_injective oldEnds newEnds same)
  have plain : ∀ line ∈ rereadLines (linesOf new) ++ (if linesOf old = [""] then [""] else []),
      '\n' ∉ line.toList := by
    intro line member
    rcases List.mem_append.1 member with member | member
    · exact not_mem_of_mem_linesOf (mem_of_mem_rereadLines member)
    · split at member
      · simp [List.mem_singleton.1 member]
      · cases member
  rw [Patch.patched?, endedLines?_eq_linesOf oldEnds, hunksAre]
  simp only [Option.bind_eq_bind, Option.bind_some, applied, Option.pure_def, Option.some.injEq]
  rw [ne_eq, ne_eq, ← linesOf_eq_iff oldEnds, ← linesOf_eq_iff newEnds, ← ne_eq, ← ne_eq,
    ← reread_append_eq_iff differOfLines]
  constructor
  · intro written
    have read := endedLines?_endLines plain
    rw [written, endedLines?_eq_linesOf newEnds] at read
    exact (Option.some.inj read).symm
  · intro same
    rw [same, endLines_linesOf newEnds]

/-- However texts are compared, a diff says in one line which file it is for, and turns the old
text into the new one and back, unless one of them is a single empty line, which counts as no
line at all. -/
theorem unified_applies_iff (changeset : Changeset) {path old new : String}
    (oldEnds : old.toList.getLast? = some '\n')
    (newEnds : new.toList.getLast? = some '\n') (differ : old ≠ new) :
    ((∃ patch, Patch.read? (changeset.unified path old new) = some patch ∧
        patch.oldName = "a/" ++ path ∧ patch.newName = "b/" ++ path) ↔ '\n' ∉ path.toList) ∧
      ∀ patch, Patch.read? (changeset.unified path old new) = some patch →
        patch.oldName = "a/" ++ path →
        (patch.patched? old = some new ↔ old ≠ "\n" ∧ new ≠ "\n") ∧
          (patch.reversed.patched? new = some old ↔ old ≠ "\n" ∧ new ≠ "\n") := by
  have sides := @align_sides changeset _ _ oldEnds newEnds
  constructor
  · constructor
    · rintro ⟨patch, read, names, -⟩
      exact not_mem_of_read? read names
    · intro oneLine
      exact ⟨_, Patch.read?_unified oldEnds newEnds differ oneLine, rfl, rfl⟩
  · intro patch read names
    have oneLine := not_mem_of_read? read names
    rw [Patch.read?_unified oldEnds newEnds differ oneLine] at read
    cases read
    constructor
    · exact patched?_hunks_iff oldEnds newEnds differ rfl sides.1 sides.2
    · rw [and_comm]
      apply patched?_hunks_iff newEnds oldEnds differ.symm (hunks_map_reversed _)
      · rw [oldSide_map_reversed, sides.2]
      · rw [newSide_map_reversed, sides.1]

/-- One line for another can be applied, a line for a single empty one cannot: the diff does not say
that the empty line goes. -/
theorem unified_applies_iff_of_one_line :
    ("a\n".toList.getLast? = some '\n' ∧ "b\n".toList.getLast? = some '\n' ∧ "a\n" ≠ "b\n" ∧
      ∃ patch, Patch.read? (Changeset.standard.unified "A.java" "a\n" "b\n") = some patch ∧
        patch.patched? "a\n" = some "b\n" ∧ patch.reversed.patched? "b\n" = some "a\n") ∧
      ("\n".toList.getLast? = some '\n' ∧ "\n" ≠ "b\n" ∧
        ∃ patch, Patch.read? (Changeset.standard.unified "A.java" "\n" "b\n") = some patch ∧
          patch.patched? "\n" ≠ some "b\n") := by
  constructor
  · have applies := @unified_applies_iff .standard "A.java" "a\n" "b\n" rfl rfl (by decide)
    obtain ⟨patch, read, names, -⟩ := applies.1.2 (by decide)
    have turns := applies.2 patch read names
    exact ⟨rfl, rfl, by decide, patch, read, turns.1.2 (by decide), turns.2.2 (by decide)⟩
  · have applies := @unified_applies_iff .standard "A.java" "\n" "b\n" rfl rfl (by decide)
    obtain ⟨patch, read, names, -⟩ := applies.1.2 (by decide)
    exact ⟨rfl, by decide, patch, read, fun applied =>
      ((applies.2 patch read names).1.1 applied).1 rfl⟩

end Verbatim.Diff
