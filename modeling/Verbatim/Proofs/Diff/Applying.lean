import Verbatim.Proofs.Diff.Extents
import Verbatim.Proofs.Diff.Patch

/-! What a unified diff does to a file. Between hunks both sides are the same and a hunk holds
the lines of both sides, so that hunks turn the old side of their alignment into the new one,
and reversed hunks the new side into the old one. -/

namespace Verbatim.Diff

/-! ## From the old side to the new side -/

theorem linesInFront?_firstLine (before count : Nat) :
    linesInFront? (Hunk.firstLine before count) count = some before := by
  unfold linesInFront? Hunk.firstLine
  split
  · rfl
  · simp

theorem applyHunks_cons {oldPassed newPassed : Nat} {passed lines : List Line} {hunks : List Hunk}
    {rest patched : List String} (same : oldSide passed = newSide passed)
    (applied : applyHunks (oldPassed + (oldSide passed).length + (oldSide lines).length)
      (newPassed + (newSide passed).length + (newSide lines).length) hunks rest = some patched) :
    applyHunks oldPassed newPassed
      (⟨Hunk.firstLine (oldPassed + (oldSide passed).length) (oldSide lines).length,
        Hunk.firstLine (newPassed + (newSide passed).length) (newSide lines).length,
        lines⟩ :: hunks)
      (oldSide passed ++ (oldSide lines ++ rest)) =
        some (newSide passed ++ (newSide lines ++ patched)) := by
  have lengths : (oldSide passed).length = (newSide passed).length := congrArg List.length same
  have between : oldPassed + (oldSide passed).length - oldPassed =
      (oldSide passed).length := by omega
  rw [applyHunks]
  simp only [Hunk.oldLines, Hunk.newLines, linesInFront?_firstLine, Option.bind_eq_bind,
    Option.bind_some, between]
  rw [if_pos ⟨trivial, by omega, by simp⟩, List.drop_left, dropPrefix?_append]
  simp only [Option.bind_some, applied, List.take_left]
  rw [same, List.append_assoc]
  rfl

/-- Behind the lines that were passed, hunks turn what is left of the old side into what is left of
the new side. -/
theorem applyHunks_drop {aligned : List Line} {extents : List Extent} {start : Nat}
    (covered : Covered aligned start extents) :
    applyHunks (oldSide (aligned.take start)).length (newSide (aligned.take start)).length
      (extents.map (Hunk.ofExtent aligned)) (oldSide (aligned.drop start)) =
        some (newSide (aligned.drop start)) := by
  induction extents generalizing start with
  | nil =>
      have same := Unchanged.sides covered
      rw [linesBetween, List.take_of_length_le (by simp)] at same
      rw [List.map_nil, applyHunks, same]
  | cons extent rest induction =>
      rcases covered with ⟨after, order, bound, unchanged, behind⟩
      have applied := induction behind
      rw [take_eq_append_linesBetween aligned order, take_eq_append_linesBetween aligned after,
        oldSide_append, oldSide_append, newSide_append, newSide_append, List.length_append,
        List.length_append, List.length_append, List.length_append] at applied
      have hunk : Hunk.ofExtent aligned extent =
          ⟨Hunk.firstLine ((oldSide (aligned.take start)).length +
              (oldSide (linesBetween aligned start extent.start)).length)
              (oldSide (linesBetween aligned extent.start extent.stop)).length,
            Hunk.firstLine ((newSide (aligned.take start)).length +
              (newSide (linesBetween aligned start extent.start)).length)
              (newSide (linesBetween aligned extent.start extent.stop)).length,
            linesBetween aligned extent.start extent.stop⟩ := by
        rw [← List.length_append, ← List.length_append, ← oldSide_append, ← newSide_append,
          ← take_eq_append_linesBetween aligned after]
        rfl
      rw [List.map_cons, hunk, drop_eq_linesBetween_append aligned after,
        drop_eq_linesBetween_append aligned order]
      simp only [oldSide_append, newSide_append]
      exact applyHunks_cons unchanged.sides applied

theorem applyHunks_hunks (aligned : List Line) :
    applyHunks 0 0 (hunks aligned) (oldSide aligned) = some (newSide aligned) :=
  applyHunks_drop (covered_hunkExtents contextLines aligned)

theorem applyHunks_append {oldPassed newPassed : Nat} {hunks : List Hunk}
    {lines patched : List String}
    (applied : applyHunks oldPassed newPassed hunks lines = some patched)
    (more : List String) :
    applyHunks oldPassed newPassed hunks (lines ++ more) = some (patched ++ more) := by
  induction hunks generalizing oldPassed newPassed lines patched with
  | nil =>
      cases applied
      rfl
  | cons hunk hunks induction =>
      rw [applyHunks] at applied ⊢
      simp only [Option.bind_eq_bind, Option.bind_eq_some_iff] at applied
      rcases applied with ⟨oldFront, isOldFront, newFront, isNewFront, applied⟩
      simp only [isOldFront, isNewFront, Option.bind_eq_bind, Option.bind_some]
      split at applied
      next inside =>
        rcases Option.bind_eq_some_iff.1 applied with ⟨rest, isRest, applied⟩
        rcases Option.bind_eq_some_iff.1 applied with ⟨other, isOther, result⟩
        cases result
        have later := induction isOther
        obtain ⟨front, split, same⟩ := List.dropPrefix?_eq_some_iff.1 isRest
        rw [if_pos ⟨inside.1, inside.2.1, by simp; omega⟩,
          List.drop_append_of_le_length inside.2.2, split, beq_iff_eq.1 same, List.append_assoc,
          dropPrefix?_append, Option.bind_some, later, List.take_append_of_le_length inside.2.2]
        simp
      next => cases applied

/-! ## The other way round -/

theorem oldSide_map_reversed (lines : List Line) :
    oldSide (lines.map Line.reversed) = newSide lines := by
  induction lines with
  | nil => rfl
  | cons line rest induction => cases line <;> simp [Line.reversed, oldSide, newSide, induction]

theorem newSide_map_reversed (lines : List Line) :
    newSide (lines.map Line.reversed) = oldSide lines := by
  induction lines with
  | nil => rfl
  | cons line rest induction => cases line <;> simp [Line.reversed, oldSide, newSide, induction]

theorem isChange_reversed (line : Line) : line.reversed.isChange = line.isChange := by
  cases line <;> rfl

theorem hunkExtents_map_reversed (context : Nat) (aligned : List Line) :
    hunkExtents context (aligned.map Line.reversed) = hunkExtents context aligned := by
  have changed : changedPlaces (aligned.map Line.reversed) = changedPlaces aligned := by
    unfold changedPlaces
    rw [List.length_map]
    apply List.filter_congr
    intro place member
    rw [List.getElem?_map]
    cases aligned[place]? with
    | none => rfl
    | some line => exact isChange_reversed line
  rw [hunkExtents, hunkExtents, changed, List.length_map]

theorem hunks_map_reversed (aligned : List Line) :
    (hunks aligned).map Hunk.reversed = hunks (aligned.map Line.reversed) := by
  unfold hunks
  rw [hunkExtents_map_reversed, List.map_map]
  apply List.map_congr_left
  intro extent member
  simp only [Function.comp, Hunk.reversed, Hunk.ofExtent, ← List.map_take, ← List.map_drop,
    oldSide_map_reversed, newSide_map_reversed]

/-! ## Files of one empty line -/

/-- An alignment sees a file of one empty line as a file without lines. Hunks leave that line behind
what they put in. -/
theorem applyHunks_hunks_of_reread {aligned : List Line} {old : List String}
    (oldIs : oldSide aligned = rereadLines old) :
    applyHunks 0 0 (hunks aligned) old =
      some (newSide aligned ++ if old = [""] then [""] else []) := by
  have applied := applyHunks_hunks aligned
  rw [oldIs, rereadLines] at applied
  by_cases empty : old = [""]
  · rw [if_pos empty] at applied
    rw [if_pos empty, empty]
    exact applyHunks_append applied [""]
  · rw [if_neg empty] at applied ⊢
    rw [applied, List.append_nil]

theorem reread_append_eq_iff {old new : List String} (differ : old ≠ new) :
    (rereadLines new ++ if old = [""] then [""] else []) = new ↔ old ≠ [""] ∧ new ≠ [""] := by
  unfold rereadLines
  by_cases oldEmpty : old = [""]
  · have newFull : new ≠ [""] := fun newEmpty => differ (oldEmpty.trans newEmpty.symm)
    simp [oldEmpty, newFull]
  · by_cases newEmpty : new = [""]
    · simp [oldEmpty, newEmpty]
    · simp [oldEmpty, newEmpty]

end Verbatim.Diff
