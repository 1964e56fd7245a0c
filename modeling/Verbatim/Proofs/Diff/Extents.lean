import Mathlib.Data.List.Basic
import Verbatim.Diff.Hunk

/-! Where hunks stand in an alignment. Extents follow each other, and between two of them, in
front of the first and behind the last one nothing changes, so that both sides are the same
there. -/

namespace Verbatim.Diff

/-- No line that goes or comes stands at the places from `start` up to `stop`. -/
def Unchanged (aligned : List Line) (start stop : Nat) : Prop :=
  ∀ place, start ≤ place → place < stop → (aligned[place]?).any Line.isChange = false

/-- The extents hold all changes behind `start`, one after the other. -/
def Covered (aligned : List Line) : (start : Nat) → List Extent → Prop
  | start, [] => Unchanged aligned start aligned.length
  | start, extent :: rest =>
    start ≤ extent.start ∧ extent.start ≤ extent.stop ∧ extent.stop ≤ aligned.length ∧
      Unchanged aligned start extent.start ∧ Covered aligned extent.stop rest

/-- The same of extents of which the first one may reach back behind `start`. -/
def CoveredBehind (aligned : List Line) (start : Nat) : List Extent → Prop
  | [] => Unchanged aligned start aligned.length
  | extent :: rest =>
    extent.start ≤ extent.stop ∧ start ≤ extent.stop ∧ extent.stop ≤ aligned.length ∧
      Unchanged aligned start extent.start ∧ Covered aligned extent.stop rest

namespace Unchanged

variable {aligned : List Line} {start later stop : Nat}

theorem mono (unchanged : Unchanged aligned start stop) (order : start ≤ later) :
    Unchanged aligned later stop :=
  fun place after before => unchanged place (by omega) before

theorem extend (unchanged : Unchanged aligned (start + 1) stop)
    (here : (aligned[start]?).any Line.isChange = false) : Unchanged aligned start stop := by
  intro place after before
  rcases Nat.eq_or_lt_of_le after with rfl | later
  · exact here
  · exact unchanged place later before

end Unchanged

variable {aligned : List Line}

theorem CoveredBehind.extend {start : Nat} {extents : List Extent}
    (covered : CoveredBehind aligned (start + 1) extents)
    (here : (aligned[start]?).any Line.isChange = false) : CoveredBehind aligned start extents := by
  cases extents with
  | nil => exact Unchanged.extend covered here
  | cons extent rest =>
      rcases covered with ⟨order, reach, bound, unchanged, behind⟩
      exact ⟨order, by omega, bound, unchanged.extend here, behind⟩

theorem CoveredBehind.join {place : Nat} {extents : List Extent} (context : Nat)
    (covered : CoveredBehind aligned (place + 1) extents) (inside : place < aligned.length) :
    CoveredBehind aligned place
      (Extent.join (Extent.around context aligned.length place) extents) := by
  have ahead : Unchanged aligned place (place - context) := fun other after before => by omega
  obtain ⟨first, around⟩ : ∃ first, Extent.around context aligned.length place = first := ⟨_, rfl⟩
  have start : first.start = place - context := by rw [← around, Extent.around]
  have stop : first.stop = min (place + context + 1) aligned.length := by
    rw [← around, Extent.around]
  rw [around]
  rw [← start] at ahead
  cases extents with
  | nil => exact ⟨by omega, by omega, by omega, ahead, Unchanged.mono covered (by omega)⟩
  | cons next rest =>
      rcases covered with ⟨order, reach, bound, unchanged, behind⟩
      rw [Extent.join]
      split
      next touches =>
        refine ⟨?_, ?_, bound, ahead, behind⟩
        · show first.start ≤ next.stop
          omega
        · show place ≤ next.stop
          omega
      next apart =>
        have gap : Unchanged aligned first.stop next.start := unchanged.mono (by omega)
        exact ⟨by omega, by omega, by omega, ahead, by omega, order, bound, gap, behind⟩

theorem coveredBehind_extents (aligned : List Line) (context count : Nat) :
    ∀ start, start + count = aligned.length →
      CoveredBehind aligned start
        ((((List.range' start count).filter fun place =>
          (aligned[place]?).any Line.isChange).map
            (Extent.around context aligned.length)).foldr Extent.join []) := by
  induction count with
  | zero =>
      intro start whole place after before
      omega
  | succ count induction =>
      intro start whole
      have behind := induction (start + 1) (by omega)
      rw [List.range'_succ, List.filter_cons]
      split
      · exact behind.join context (by omega)
      next same => exact behind.extend (Bool.eq_false_iff.2 same)

theorem covered_hunkExtents (context : Nat) (aligned : List Line) :
    Covered aligned 0 (hunkExtents context aligned) := by
  have behind := coveredBehind_extents aligned context aligned.length 0 (by omega)
  rw [← List.range_eq_range'] at behind
  unfold hunkExtents changedPlaces
  revert behind
  generalize List.foldr Extent.join [] _ = extents
  intro behind
  cases extents with
  | nil => exact behind
  | cons extent rest =>
      rcases behind with ⟨order, -, bound, unchanged, rest⟩
      exact ⟨Nat.zero_le _, order, bound, unchanged, rest⟩

/-! ## Both sides between extents -/

theorem oldSide_eq_newSide {lines : List Line} (same : ∀ line ∈ lines, line.isChange = false) :
    oldSide lines = newSide lines := by
  induction lines with
  | nil => rfl
  | cons line rest induction =>
      have others := induction fun other member => same other (List.mem_cons_of_mem _ member)
      cases line with
      | same text => simp [oldSide, newSide, others]
      | removed text => cases same (.removed text) List.mem_cons_self
      | added text => cases same (.added text) List.mem_cons_self

/-- The lines at the places from `start` up to `stop`. -/
def linesBetween (aligned : List Line) (start stop : Nat) : List Line :=
  (aligned.drop start).take (stop - start)

theorem drop_eq_linesBetween_append (aligned : List Line) {start stop : Nat}
    (order : start ≤ stop) :
    aligned.drop start = linesBetween aligned start stop ++ aligned.drop stop := by
  have split := (List.take_append_drop (stop - start) (aligned.drop start)).symm
  rwa [List.drop_drop, Nat.add_sub_cancel' order] at split

theorem take_eq_append_linesBetween (aligned : List Line) {start stop : Nat}
    (order : start ≤ stop) :
    aligned.take stop = aligned.take start ++ linesBetween aligned start stop := by
  rw [linesBetween, List.take_drop, Nat.add_sub_cancel' order]
  conv_lhs => rw [← List.take_append_drop start (aligned.take stop)]
  rw [List.take_take, Nat.min_eq_left order]

theorem Unchanged.sides {start stop : Nat} (unchanged : Unchanged aligned start stop) :
    oldSide (linesBetween aligned start stop) = newSide (linesBetween aligned start stop) := by
  apply oldSide_eq_newSide
  intro line member
  obtain ⟨place, found⟩ := List.mem_iff_getElem?.1 member
  rw [linesBetween, List.getElem?_take, List.getElem?_drop] at found
  split at found
  · simpa [found] using unchanged (start + place) (by omega) (by omega)
  · cases found

end Verbatim.Diff
