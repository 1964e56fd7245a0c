import Mathlib.Data.List.Forall2
import Mathlib.Data.List.Pairwise
import Verbatim.Proofs.Diff.Applying

/-! What the extents of hunks hold. Every change lies in one of them with the lines around it,
and two changes share one exactly if their surroundings touch. What a hunk says in its header
are the numbers of its first lines and how many lines it has on either side. -/

namespace Verbatim.Diff

/-! ## Extents around places -/

def Extent.Holds (extent : Extent) (place : Nat) : Prop :=
  extent.start ≤ place ∧ place < extent.stop

/-- One of the extents lies in front of the other, with a line or more between them. -/
def Extent.Apart (extent other : Extent) : Prop :=
  extent.stop < other.start ∨ other.stop < extent.start

/-- The extent begins so many lines in front of the first of the places it holds and ends so
many behind the last one, as far as there are lines, and in between no two of them are further
apart than their surroundings reach. -/
structure Extent.Frames (context length : Nat) (places : List Nat) (extent : Extent) : Prop where
  bounds : ∃ first ∈ places, ∃ last ∈ places, first ≤ last ∧ extent.start = first - context ∧
    extent.stop = min (last + 1 + context) length ∧
    ∀ place ∈ places, extent.Holds place → first ≤ place ∧ place ≤ last
  close : ∀ place ∈ places, ∀ later ∈ places, extent.Holds place →
      extent.Holds later → place < later →
    (∀ between ∈ places, place < between → later ≤ between) → later ≤ place + 1 + 2 * context

/-- All places are framed by extents that lie apart. -/
structure Framing (context length : Nat) (places : List Nat) (extents : List Extent) : Prop where
  apart : extents.Pairwise fun extent later => extent.stop < later.start
  held : ∀ place ∈ places, ∃ extent ∈ extents, extent.Holds place
  frames : ∀ extent ∈ extents, extent.Frames context length places

section

variable {context length place : Nat} {places : List Nat} {extent next : Extent}
    {extents : List Extent}

namespace Extent.Frames

theorem start_lt_stop (frames : extent.Frames context length places)
    (inside : ∀ other ∈ places, other < length) : extent.start < extent.stop := by
  obtain ⟨first, -, last, isLast, order, start, stop, -⟩ := frames.bounds
  have := inside last isLast
  omega

theorem behind (frames : extent.Frames context length places) (notHeld : ¬extent.Holds place) :
    extent.Frames context length (place :: places) := by
  have isOther {other : Nat} (isPlace : other ∈ place :: places) (holds : extent.Holds other) :
      other ∈ places :=
    (List.mem_cons.1 isPlace).resolve_left fun same => notHeld (same ▸ holds)
  obtain ⟨first, isFirst, last, isLast, order, start, stop, bounds⟩ := frames.bounds
  constructor
  · exact ⟨first, List.mem_cons_of_mem _ isFirst, last, List.mem_cons_of_mem _ isLast, order, start,
      stop, fun other isPlace holds => bounds other (isOther isPlace holds) holds⟩
  · intro one isOne two isTwo holdsOne holdsTwo order nothing
    exact frames.close one (isOther isOne holdsOne) two
      (isOther isTwo holdsTwo) holdsOne holdsTwo order
      fun between isPlace => nothing between (List.mem_cons_of_mem _ isPlace)

theorem around
    (others : ∀ other ∈ places, ¬(Extent.around context length place).Holds other) :
    (Extent.around context length place).Frames context length (place :: places) := by
  have isHere {other : Nat} (isPlace : other ∈ place :: places)
      (holds : (Extent.around context length place).Holds other) : other = place :=
    (List.mem_cons.1 isPlace).resolve_right fun member => others other member holds
  constructor
  · refine ⟨place, List.mem_cons_self, place, List.mem_cons_self, Nat.le_refl _, rfl, ?_, ?_⟩
    · rw [Extent.around, Nat.add_right_comm]
    · intro other isPlace holds
      have := isHere isPlace holds
      omega
  · intro one isOne two isTwo holdsOne holdsTwo order
    have := isHere isOne holdsOne
    have := isHere isTwo holdsTwo
    omega

theorem touch (frames : next.Frames context length places)
    (before : ∀ other ∈ places, place < other)
    (front : ∀ other ∈ places, other < next.stop → next.Holds other)
    (touches : next.start ≤ min (place + context + 1) length) :
    Extent.Frames context length (place :: places) ⟨place - context, next.stop⟩ := by
  obtain ⟨first, isFirst, last, isLast, order, start, stop, bounds⟩ := frames.bounds
  have afterPlace := before first isFirst
  constructor
  · refine ⟨place, List.mem_cons_self, last, List.mem_cons_of_mem _ isLast, by omega, rfl, stop, ?_⟩
    intro other isPlace holds
    rcases List.mem_cons.1 isPlace with here | later
    · omega
    · have := before other later
      have := (bounds other later (front other later holds.2)).2
      omega
  · intro one isOne two isTwo holdsOne holdsTwo order nothing
    rcases List.mem_cons.1 isTwo with twoHere | twoLater
    · rcases List.mem_cons.1 isOne with oneHere | oneLater
      · omega
      · have := before one oneLater
        omega
    · rcases List.mem_cons.1 isOne with rfl | oneLater
      · -- the place that follows the new one is the first of the extent
        have := nothing first (List.mem_cons_of_mem _ isFirst) afterPlace
        omega
      · exact frames.close one oneLater two twoLater (front one oneLater holdsOne.2)
          (front two twoLater holdsTwo.2) order
          fun between isPlace => nothing between (List.mem_cons_of_mem _ isPlace)

end Extent.Frames

namespace Framing

theorem holds_first (framing : Framing context length places (next :: extents)) {other : Nat}
    (isPlace : other ∈ places) (front : other < next.stop) : next.Holds other := by
  obtain ⟨extent, member, holds⟩ := framing.held other isPlace
  rcases List.mem_cons.1 member with rfl | later
  · exact holds
  · have := (List.pairwise_cons.1 framing.apart).1 extent later
    have := holds.1
    omega

theorem either (framing : Framing context length places extents) {other : Extent}
    (member : extent ∈ extents) (otherMember : other ∈ extents) (different : extent ≠ other) :
    extent.Apart other := by
  have symmetric : Std.Symm Extent.Apart := ⟨fun _ _ => Or.symm⟩
  have apart : extents.Pairwise Extent.Apart := framing.apart.imp Or.inl
  exact apart.forall member otherMember different

theorem touch (framing : Framing context length places (next :: extents))
    (before : ∀ other ∈ places, place < other) (inside : ∀ other ∈ places, other < length)
    (touches : next.start ≤ min (place + context + 1) length) :
    Framing context length (place :: places) (⟨place - context, next.stop⟩ :: extents) := by
  have later := List.pairwise_cons.1 framing.apart
  have frames := framing.frames next List.mem_cons_self
  obtain ⟨first, isFirst, last, isLast, order, -, stop, -⟩ := frames.bounds
  have afterPlace := before first isFirst
  have lastInside := inside last isLast
  constructor
  · exact List.pairwise_cons.2 later
  · intro other isPlace
    rcases List.mem_cons.1 isPlace with rfl | isLater
    · refine ⟨_, List.mem_cons_self, Nat.sub_le .., ?_⟩
      show other < next.stop
      omega
    · have := before other isLater
      obtain ⟨extent, member, holds⟩ := framing.held other isLater
      rcases List.mem_cons.1 member with rfl | behind
      · refine ⟨_, List.mem_cons_self, ?_, holds.2⟩
        show place - context ≤ other
        omega
      · exact ⟨extent, List.mem_cons_of_mem _ behind, holds⟩
  · refine List.forall_mem_cons.2 ⟨?_, fun extent member => ?_⟩
    · exact frames.touch before (fun _ => framing.holds_first) touches
    · refine (framing.frames extent (List.mem_cons_of_mem _ member)).behind fun holds => ?_
      have := later.1 extent member
      have := holds.1
      omega

theorem alone (framing : Framing context length places extents) (inside : place < length)
    (clear : ∀ extent ∈ extents, min (place + context + 1) length < extent.start) :
    Framing context length (place :: places) (Extent.around context length place :: extents) := by
  constructor
  · exact List.pairwise_cons.2 ⟨clear, framing.apart⟩
  · intro other isPlace
    rcases List.mem_cons.1 isPlace with rfl | isLater
    · refine ⟨_, List.mem_cons_self, Nat.sub_le .., ?_⟩
      show other < min (other + context + 1) length
      omega
    · obtain ⟨extent, member, holds⟩ := framing.held other isLater
      exact ⟨extent, List.mem_cons_of_mem _ member, holds⟩
  · refine List.forall_mem_cons.2 ⟨.around fun other isPlace holds => ?_, fun extent member => ?_⟩
    · obtain ⟨extent, member, held⟩ := framing.held other isPlace
      have := clear extent member
      have := held.1
      have : other < min (place + context + 1) length := holds.2
      omega
    · refine (framing.frames extent member).behind fun holds => ?_
      have := clear extent member
      have := holds.1
      omega

theorem join (framing : Framing context length places extents)
    (before : ∀ other ∈ places, place < other)
    (inside : ∀ other ∈ place :: places, other < length) :
    Framing context length (place :: places)
      (Extent.join (Extent.around context length place) extents) := by
  rw [List.forall_mem_cons] at inside
  cases extents with
  | nil => exact framing.alone inside.1 fun _ absent => absurd absent List.not_mem_nil
  | cons next rest =>
      rw [Extent.join]
      split
      next touches => exact framing.touch before inside.2 touches
      next apart =>
        have clear : min (place + context + 1) length < next.start := Nat.lt_of_not_le apart
        refine framing.alone inside.1 (List.forall_mem_cons.2 ⟨clear, fun extent member => ?_⟩)
        have := (List.pairwise_cons.1 framing.apart).1 extent member
        have := (framing.frames next List.mem_cons_self).start_lt_stop inside.2
        omega

theorem foldr_join (growing : places.Pairwise (· < ·)) (inside : ∀ other ∈ places, other < length) :
    Framing context length places
      ((places.map (Extent.around context length)).foldr Extent.join []) := by
  induction places with
  | nil => exact ⟨.nil, fun _ absent => absurd absent List.not_mem_nil,
      fun _ absent => absurd absent List.not_mem_nil⟩
  | cons place places induction =>
      have later := List.pairwise_cons.1 growing
      exact (induction later.2 fun other member =>
        inside other (List.mem_cons_of_mem _ member)).join
        later.1 inside

/-- Two places that follow each other are held by one extent exactly if their surroundings touch. -/
theorem together_iff (framing : Framing context length places extents)
    (inside : ∀ other ∈ places, other < length) {later : Nat} (isPlace : place ∈ places)
    (isLater : later ∈ places) (order : place < later)
    (nothing : ∀ between ∈ places, place < between → later ≤ between) :
    (∃ extent ∈ extents, extent.Holds place ∧ extent.Holds later) ↔
      later ≤ place + 1 + 2 * context := by
  constructor
  · rintro ⟨extent, member, holds, holdsLater⟩
    exact (framing.frames extent member).close place isPlace
      later isLater holds holdsLater order nothing
  · intro near
    obtain ⟨extent, member, holds⟩ := framing.held place isPlace
    refine ⟨extent, member, holds, Nat.le_trans holds.1 (Nat.le_of_lt order), ?_⟩
    apply Nat.lt_of_not_le
    intro beyond
    obtain ⟨other, otherMember, otherHolds⟩ := framing.held later isLater
    obtain ⟨_, -, last, isLast, -, -, stop, bounds⟩ := (framing.frames extent member).bounds
    obtain ⟨first, -, _, -, -, start, -, otherBounds⟩ :=
      (framing.frames other otherMember).bounds
    have := (bounds place isPlace holds).2
    have := (otherBounds later isLater otherHolds).1
    have := inside later isLater
    have lastHere : last = place := by
      rcases Nat.lt_or_ge place last with behind | _
      · have := nothing last isLast behind
        omega
      · omega
    have different : extent ≠ other := by
      rintro rfl
      have := otherHolds.2
      omega
    rcases framing.either member otherMember different with before | behind
    · omega
    · have := otherHolds.2
      have := holds.1
      omega

end Framing

end

/-! ## Extents around changes -/

def Changes (aligned : List Line) (place : Nat) : Prop := (aligned[place]?).any Line.isChange = true

theorem mem_changedPlaces {aligned : List Line} {place : Nat} :
    place ∈ changedPlaces aligned ↔ Changes aligned place := by
  rw [changedPlaces, List.mem_filter, List.mem_range, Changes, and_iff_right_iff_imp]
  intro changes
  apply Nat.lt_of_not_le
  intro outside
  rw [List.getElem?_eq_none outside] at changes
  cases changes

theorem lt_length_of_changes {aligned : List Line} {place : Nat} (changes : Changes aligned place) :
    place < aligned.length :=
  List.mem_range.1 (List.mem_filter.1 (mem_changedPlaces.2 changes)).1

theorem unchanged_iff {aligned : List Line} {start stop : Nat} :
    Unchanged aligned start stop ↔
      ∀ place ∈ changedPlaces aligned, start ≤ place → stop ≤ place := by
  constructor
  · intro unchanged place isPlace after
    apply Nat.le_of_not_lt
    intro before
    have changes := mem_changedPlaces.1 isPlace
    rw [Changes, unchanged place after before] at changes
    cases changes
  · intro beyond place after before
    apply Bool.eq_false_iff.2
    intro changes
    have := beyond place (mem_changedPlaces.2 changes) after
    omega

theorem framing_hunkExtents (context : Nat) (aligned : List Line) :
    Framing context aligned.length (changedPlaces aligned) (hunkExtents context aligned) :=
  .foldr_join (List.pairwise_lt_range.filter _)
    fun _ isPlace => lt_length_of_changes (mem_changedPlaces.1 isPlace)

/-! ## Numbers of lines -/

namespace Line

def isOld : Line → Bool
  | .same _ | .removed _ => true
  | .added _ => false

def isNew : Line → Bool
  | .same _ | .added _ => true
  | .removed _ => false

end Line

theorem length_oldSide (lines : List Line) : (oldSide lines).length = lines.countP Line.isOld := by
  induction lines with
  | nil => rfl
  | cons line rest induction =>
      cases line <;> simp [oldSide, Line.isOld, List.countP_cons, induction]

theorem length_newSide (lines : List Line) : (newSide lines).length = lines.countP Line.isNew := by
  induction lines with
  | nil => rfl
  | cons line rest induction =>
      cases line <;> simp [newSide, Line.isNew, List.countP_cons, induction]

/-- A start and a count say where the lines of one side stand in an extent and how many there
are. The start is the number of the first of them, counted from one on, or if there is none, how
many lines of the side stand in front of the extent. -/
structure Extent.Numbers (onSide : Line → Bool) (aligned : List Line) (extent : Extent)
    (start count : Nat) : Prop where
  lines : count = (linesBetween aligned extent.start extent.stop).countP onSide
  first : ∀ place, extent.Holds place → (aligned[place]?).any onSide = true →
    (∀ earlier, extent.start ≤ earlier → earlier < place → (aligned[earlier]?).any onSide = false) →
    start = (aligned.take place).countP onSide + 1
  none : count = 0 → start = (aligned.take extent.start).countP onSide

section

variable {aligned : List Line} {extent : Extent}

theorem mem_linesBetween {start stop : Nat} {line : Line} :
    line ∈ linesBetween aligned start stop ↔
      ∃ place, start ≤ place ∧ place < stop ∧ aligned[place]? = some line := by
  rw [linesBetween, List.mem_iff_getElem?]
  simp only [List.getElem?_take, List.getElem?_drop]
  constructor
  · rintro ⟨place, found⟩
    split at found
    · exact ⟨start + place, by omega, by omega, found⟩
    · cases found
  · rintro ⟨place, after, before, found⟩
    refine ⟨place - start, ?_⟩
    rw [if_pos (by omega), Nat.add_sub_cancel' after, found]

theorem Extent.numbers (onSide : Line → Bool) :
    extent.Numbers onSide aligned
      (Hunk.firstLine ((aligned.take extent.start).countP onSide)
        ((linesBetween aligned extent.start extent.stop).countP onSide))
      ((linesBetween aligned extent.start extent.stop).countP onSide) := by
  refine ⟨rfl, fun place holds isOn noEarlier => ?_, fun nothing => if_pos nothing⟩
  obtain ⟨line, found, lineOn⟩ := (Option.any_eq_true ..).1 isOn
  have some : (linesBetween aligned extent.start extent.stop).countP onSide ≠ 0 := by
    rw [← Nat.pos_iff_ne_zero, List.countP_pos_iff]
    exact ⟨line, mem_linesBetween.2 ⟨place, holds.1, holds.2, found⟩, lineOn⟩
  have passed : (linesBetween aligned extent.start place).countP onSide = 0 := by
    rw [List.countP_eq_zero]
    intro other member otherOn
    obtain ⟨earlier, after, before, otherFound⟩ := mem_linesBetween.1 member
    have isOff := noEarlier earlier after before
    rw [otherFound, Option.any_some, otherOn] at isOff
    cases isOff
  rw [Hunk.firstLine, if_neg some, take_eq_append_linesBetween aligned holds.1, List.countP_append,
    passed, Nat.add_zero]

theorem Hunk.header_ofExtent (aligned : List Line) (extent : Extent) :
    ∃ oldStart oldCount newStart newCount,
      (Hunk.ofExtent aligned extent).header =
        "@@ -" ++ renderRange oldStart oldCount ++ " +" ++
          renderRange newStart newCount ++ " @@\n" ∧
      extent.Numbers Line.isOld aligned oldStart oldCount ∧
      extent.Numbers Line.isNew aligned newStart newCount := by
  refine ⟨_, _, _, _, rfl, ?_, ?_⟩
  · simp only [ofExtent, oldLines, length_oldSide]
    exact Extent.numbers Line.isOld
  · simp only [ofExtent, newLines, length_newSide]
    exact Extent.numbers Line.isNew

end

/-- Hunks stand in their order with a line or more between two of them. They hold all changes,
each hunk from three lines in front of its first change to three lines behind its last one, as
far as there are lines, and two changes that follow each other lie in one hunk if no more than
six lines are between them. Their headers show the numbers of their lines, and put in the place
of the old lines their new lines turn the old side into the new one. -/
theorem hunks_frame_changes (aligned : List Line) :
    (hunkExtents contextLines aligned).Pairwise (fun extent later => extent.stop < later.start) ∧
    (∀ place, Changes aligned place →
      ∃ extent ∈ hunkExtents contextLines aligned, extent.Holds place) ∧
    (∀ extent ∈ hunkExtents contextLines aligned, ∃ first last, first ≤ last ∧
      extent.Holds first ∧ Changes aligned first ∧ Unchanged aligned extent.start first ∧
      extent.start = first - 3 ∧
      extent.Holds last ∧ Changes aligned last ∧ Unchanged aligned (last + 1) extent.stop ∧
      extent.stop = min (last + 1 + 3) aligned.length) ∧
    (∀ place later, place < later → Changes aligned place → Changes aligned later →
      Unchanged aligned (place + 1) later →
      ((∃ extent ∈ hunkExtents contextLines aligned, extent.Holds place ∧ extent.Holds later) ↔
        later - (place + 1) ≤ 6)) ∧
    List.Forall₂ (fun extent hunk =>
      hunk.lines = linesBetween aligned extent.start extent.stop ∧
      ∃ oldStart oldCount newStart newCount,
        hunk.header =
          "@@ -" ++ renderRange oldStart oldCount ++ " +" ++ renderRange newStart newCount ++
            " @@\n" ∧
        extent.Numbers Line.isOld aligned oldStart oldCount ∧
        extent.Numbers Line.isNew aligned newStart newCount)
      (hunkExtents contextLines aligned) (hunks aligned) ∧
    applyHunks 0 0 (hunks aligned) (oldSide aligned) = some (newSide aligned) := by
  have framing := framing_hunkExtents contextLines aligned
  have inside : ∀ place ∈ changedPlaces aligned, place < aligned.length :=
    fun place isPlace => lt_length_of_changes (mem_changedPlaces.1 isPlace)
  refine ⟨framing.apart, fun place changes =>
    framing.held place (mem_changedPlaces.2 changes), ?_, ?_, ?_, applyHunks_hunks aligned⟩
  · intro extent member
    obtain ⟨first, isFirst, last, isLast, order, start, stop, bounds⟩ :=
      (framing.frames extent member).bounds
    have firstInside := inside first isFirst
    have lastInside := inside last isLast
    have holdsFirst : extent.Holds first := ⟨by omega, by omega⟩
    have holdsLast : extent.Holds last := ⟨by omega, by omega⟩
    refine ⟨first, last, order, holdsFirst, mem_changedPlaces.1 isFirst, ?_, start, holdsLast,
      mem_changedPlaces.1 isLast, ?_, stop⟩
    · refine unchanged_iff.2 fun place isPlace after => Nat.le_of_not_lt fun before => ?_
      have := (bounds place isPlace ⟨after, by omega⟩).1
      omega
    · refine unchanged_iff.2 fun place isPlace after => Nat.le_of_not_lt fun before => ?_
      have := (bounds place isPlace ⟨by omega, before⟩).2
      omega
  · intro place later order changes changesLater unchanged
    rw [framing.together_iff inside (mem_changedPlaces.2 changes) (mem_changedPlaces.2 changesLater)
      order (unchanged_iff.1 unchanged), contextLines]
    omega
  · rw [hunks, List.forall₂_map_right_iff, List.forall₂_same]
    exact fun extent _ => ⟨rfl, Hunk.header_ofExtent aligned extent⟩

end Verbatim.Diff
