import Verbatim.Proofs.Text.Pieces
import Verbatim.Proofs.Text.Positions
import Verbatim.Proofs.Text.Slices
import Verbatim.Text.StoredPosition

/-! Offsets and positions. Positions grow with the boundaries between characters, any other
offset has the position of the boundary below it, and searching the bytes for line breaks finds
the positions that stepping over the characters gives. -/

namespace Verbatim

/-! ## Stepping over characters -/

namespace Position

variable {position first second third : Position} {cs : List Char}

/-- On an earlier line, or on the same line in an earlier column. -/
def Before (first second : Position) : Prop :=
  first.line < second.line ∨ first.line = second.line ∧ first.column < second.column

theorem Before.trans (one : first.Before second) (two : second.Before third) :
    first.Before third := by
  simp only [Before] at *
  omega

theorem Before.ne (before : first.Before second) : first ≠ second := by
  intro equal
  simp [Before, equal] at before

theorem before_step (position : Position) (c : Char) : position.Before (position.step c) := by
  rw [step]
  split
  · exact .inl (Nat.lt_succ_self _)
  · exact .inr ⟨rfl, Nat.lt_succ_self _⟩

theorem advanceChars_cons (position : Position) (c : Char) (cs : List Char) :
    position.advanceChars (c :: cs) = (position.step c).advanceChars cs := rfl

theorem before_advanceChars (nonempty : cs ≠ []) :
    position.Before (position.advanceChars cs) := by
  induction cs generalizing position with
  | nil => exact absurd rfl nonempty
  | cons c rest induction =>
      rw [advanceChars_cons]
      have here := position.before_step c
      cases rest with
      | nil => exact here
      | cons next more => exact here.trans (induction (List.cons_ne_nil next more))

theorem advanceChars_le (position : Position) (cs : List Char) :
    (position.advanceChars cs).line ≤ position.line + cs.length ∧
      (position.advanceChars cs).column ≤ position.column + cs.length := by
  induction cs generalizing position with
  | nil => exact ⟨Nat.le_refl _, Nat.le_refl _⟩
  | cons c rest induction =>
      have later := induction (position.step c)
      have here : (position.step c).line ≤ position.line + 1 ∧
          (position.step c).column ≤ position.column + 1 := by
        rw [step]
        split <;> simp
      rw [advanceChars_cons, List.length_cons]
      omega

theorem line_advanceChars (position : Position) (cs : List Char) :
    (position.advanceChars cs).line = position.line + cs.count '\n' := by
  induction cs generalizing position with
  | nil => rfl
  | cons c rest induction =>
      rw [advanceChars_cons, induction, step, List.count_cons]
      by_cases isBreak : c = '\n'
      · simp [isBreak]
        omega
      · simp [isBreak]

theorem column_advanceChars (absent : '\n' ∉ cs) :
    (position.advanceChars cs).column = position.column + cs.length := by
  induction cs generalizing position with
  | nil => rfl
  | cons c rest induction =>
      rw [List.mem_cons, not_or] at absent
      rw [advanceChars_cons, induction absent.2, step, if_neg (Ne.symm absent.1), List.length_cons]
      dsimp only
      omega

theorem column_advanceChars_break {front back : List Char} (absent : '\n' ∉ back) :
    (position.advanceChars (front ++ '\n' :: back)).column = 1 + back.length := by
  have joined : position.advanceChars (front ++ '\n' :: back) =
      ((position.advanceChars front).step '\n').advanceChars back := List.foldl_append
  rw [joined, column_advanceChars absent]
  rfl

end Position

namespace Text

theorem exists_lastBreak {cs : List Char} (member : '\n' ∈ cs) :
    ∃ front back, cs = front ++ '\n' :: back ∧ '\n' ∉ back := by
  obtain ⟨back, front, equal, absent⟩ := List.eq_append_cons_of_mem (List.mem_reverse.2 member)
  refine ⟨front.reverse, back.reverse, ?_, ?_⟩
  · rw [← List.reverse_reverse cs, equal]
    simp
  · rwa [List.mem_reverse]

theorem advanceChars_start (cs : List Char) :
    Position.start.advanceChars cs = ⟨1 + cs.count '\n', 1 + (lastLine cs).length⟩ := by
  have line := Position.start.line_advanceChars cs
  have column : (Position.start.advanceChars cs).column = 1 + (lastLine cs).length := by
    by_cases member : '\n' ∈ cs
    · obtain ⟨front, back, rfl, absent⟩ := exists_lastBreak member
      rw [Position.column_advanceChars_break absent, lastLine_append_cons, lastLine,
        splitAt_eq_singleton absent]
      rfl
    · rw [Position.column_advanceChars member, lastLine, splitAt_eq_singleton member]
      rfl
  exact congr (congrArg Position.mk line) column

/-! ## Searching bytes -/

theorem bytes_append (first second : String) :
    bytes (first ++ second) = bytes first ++ bytes second := by
  simp [bytes, String.toByteArray_append]

theorem length_bytes (text : String) : (bytes text).length = text.utf8ByteSize := by
  rw [bytes, Array.length_toList]
  rfl

theorem bytes_eq (text : String) : bytes text = text.toList.flatMap String.utf8EncodeChar := by
  have encoded := String.toByteArray_ofList (l := text.toList)
  rw [String.ofList_toList] at encoded
  rw [bytes, encoded, List.utf8Encode, List.data_toByteArray]

theorem lineBreak_mem_iff (c : Char) : lineBreak ∈ String.utf8EncodeChar c ↔ c = '\n' := by
  constructor
  · intro member
    have isByte (n : Nat) : lineBreak = UInt8.ofNat n ↔ n % 256 = 10 :=
      eq_comm.trans (UInt8.ofNat_eq_iff_mod_eq_toNat n lineBreak)
    have number : c.val.toNat = 10 := by
      simp only [String.utf8EncodeChar] at member
      repeat' split at member
      all_goals
        simp only [List.mem_cons, List.not_mem_nil, or_false, isByte] at member
        omega
    exact Char.ext (UInt32.toNat_inj.1 number)
  · rintro rfl
    decide

theorem count_utf8EncodeChar (c : Char) :
    (String.utf8EncodeChar c).count lineBreak = if c = '\n' then 1 else 0 := by
  split
  next isBreak =>
    rw [isBreak]
    decide
  next other => exact List.count_eq_zero.2 fun member => other ((lineBreak_mem_iff c).1 member)

theorem count_bytes (text : String) : (bytes text).count lineBreak = text.toList.count '\n' := by
  rw [bytes_eq]
  induction text.toList with
  | nil => rfl
  | cons c rest induction =>
      rw [List.flatMap_cons, List.count_append, induction, count_utf8EncodeChar, List.count_cons,
        Nat.add_comm]
      simp only [beq_iff_eq]

theorem lineBreak_mem_bytes_iff (text : String) : lineBreak ∈ bytes text ↔ '\n' ∈ text.toList := by
  rw [← List.count_pos_iff, count_bytes, List.count_pos_iff]

theorem lastPlace?_eq_none {byte : UInt8} {list : List UInt8} (absent : byte ∉ list) :
    lastPlace? byte list = none := by
  induction list with
  | nil => rfl
  | cons first rest induction =>
      rw [List.mem_cons, not_or] at absent
      rw [lastPlace?, induction absent.2]
      exact if_neg (Ne.symm absent.1)

theorem lastPlace?_append_cons {byte : UInt8} (front : List UInt8) {back : List UInt8}
    (absent : byte ∉ back) : lastPlace? byte (front ++ byte :: back) = some front.length := by
  induction front with
  | nil =>
      rw [List.nil_append, lastPlace?, lastPlace?_eq_none absent]
      exact if_pos rfl
  | cons first rest induction =>
      rw [List.cons_append, lastPlace?, induction, List.length_cons]

theorem from?_append (front back : String) : from? (front ++ back) front.utf8ByteSize =
    some back := by
  have here : StandsAt (front ++ back) front.utf8ByteSize
      (front.utf8ByteSize + ((front ++ back).utf8ByteSize - front.utf8ByteSize)) back :=
    ⟨front, "", by simp, rfl, by rw [String.utf8ByteSize_append, Nat.add_sub_cancel_left]⟩
  exact here.slice?

theorem upTo?_append (front back : String) : upTo? (front ++ back) front.utf8ByteSize =
    some front := by
  have here : StandsAt (front ++ back) 0 front.utf8ByteSize front :=
    ⟨"", back, by simp, rfl, by simp⟩
  exact here.slice?

end Text

namespace StoredPosition

theorem stored_position (place : StoredPosition) : place.position.stored = place := by
  simp [position, Position.stored]

theorem stored_advance (position : Position) (text : String) :
    position.stored.advance? text = some (position.advance text).stored := by
  have line := position.line_advanceChars text.toList
  by_cases member : '\n' ∈ text.toList
  · obtain ⟨front, back, equal, absent⟩ := Text.exists_lastBreak member
    have column : (position.advanceChars text.toList).column = 1 + back.length := by
      rw [equal, Position.column_advanceChars_break absent]
    have split : text = String.ofList front ++ "\n" ++ String.ofList back := by
      rw [← String.toList_inj, equal]
      simp
    have last : Text.lastPlace? Text.lineBreak (Text.bytes text) =
        some (String.ofList front).utf8ByteSize := by
      have absentByte : Text.lineBreak ∉ Text.bytes (String.ofList back) := by
        rwa [Text.lineBreak_mem_bytes_iff, String.toList_ofList]
      have found := Text.lastPlace?_append_cons (Text.bytes (String.ofList front)) absentByte
      rw [Text.length_bytes] at found
      rw [split, Text.bytes_append, Text.bytes_append, List.append_assoc]
      exact found
    have behind : Text.from? text ((String.ofList front).utf8ByteSize + 1) =
        some (String.ofList back) := by
      have found := Text.from?_append (String.ofList front ++ "\n") (String.ofList back)
      rwa [← split, String.utf8ByteSize_append] at found
    simp only [advance?, last, behind, Text.count_bytes, Position.advance, Position.stored, line,
      column]
    simp [UInt32.ofNat_add]
  · have last : Text.lastPlace? Text.lineBreak (Text.bytes text) = none :=
      Text.lastPlace?_eq_none fun inside => member ((Text.lineBreak_mem_bytes_iff text).1 inside)
    have noBreak : text.toList.count '\n' = 0 := List.count_eq_zero.2 member
    simp only [advance?, last, Position.advance, Position.stored, line, noBreak,
      Position.column_advanceChars member]
    simp [UInt32.ofNat_add, String.length_toList]

/-- Moving past two pieces one after the other is moving past them joined, from any place, even
where the numbers run over. -/
theorem advance?_append (place : StoredPosition) (first second : String) :
    ∃ between last, place.advance? first = some between ∧ between.advance? second = some last ∧
      place.advance? (first ++ second) = some last := by
  rw [← place.stored_position]
  refine ⟨_, _, stored_advance _ first, stored_advance _ second, ?_⟩
  rw [stored_advance, Position.advance_append]

end StoredPosition

/-! ## Boundaries -/

namespace Text

variable {text : String} {offset boundary other : Nat}

/-- The text can be cut into two at this byte. -/
def IsBoundary (text : String) (offset : Nat) : Prop :=
  ∃ front back, text = front ++ back ∧ offset = front.utf8ByteSize

theorem isValid_eq_true_iff : String.Pos.Raw.isValid text ⟨offset⟩ = true ↔
    IsBoundary text offset := by
  simp [String.Pos.Raw.isValid_eq_true_iff, String.Pos.Raw.isValid_iff_exists_append, IsBoundary,
    String.Pos.Raw.ext_iff]

theorem isBoundary_zero (text : String) : IsBoundary text 0 := ⟨"", text, by simp, rfl⟩

theorem isBoundary_size (text : String) : IsBoundary text text.utf8ByteSize :=
  ⟨text, "", by simp, rfl⟩

theorem IsBoundary.le (here : IsBoundary text offset) : offset ≤ text.utf8ByteSize := by
  obtain ⟨front, back, rfl, rfl⟩ := here
  rw [String.utf8ByteSize_append]
  exact Nat.le_add_right _ _

/-- The last boundary that is not behind the offset. -/
structure IsFloor (text : String) (offset boundary : Nat) : Prop where
  isBoundary : IsBoundary text boundary
  le : boundary ≤ offset
  greatest : ∀ other, IsBoundary text other → other ≤ offset → other ≤ boundary

theorem IsFloor.unique (here : IsFloor text offset boundary) (there : IsFloor text offset other) :
    boundary = other :=
  Nat.le_antisymm (there.greatest boundary here.isBoundary here.le)
    (here.greatest other there.isBoundary there.le)

theorem IsBoundary.isFloor (here : IsBoundary text offset) : IsFloor text offset offset :=
  ⟨here, Nat.le_refl offset, fun _ _ le => le⟩

theorem isFloor_boundaryBefore (text : String) (offset : Nat) :
    IsFloor text offset (boundaryBefore text offset) := by
  induction offset with
  | zero => exact (isBoundary_zero text).isFloor
  | succ offset induction =>
      rw [boundaryBefore]
      split
      next valid => exact (isValid_eq_true_iff.1 valid).isFloor
      next invalid =>
        refine ⟨induction.isBoundary, Nat.le_succ_of_le induction.le, ?_⟩
        intro other isBoundary le
        apply induction.greatest other isBoundary
        apply Nat.le_of_lt_succ
        apply Nat.lt_of_le_of_ne le
        rintro rfl
        exact invalid (isValid_eq_true_iff.2 isBoundary)

theorem isFloor_floorBoundary (text : String) (offset : Nat) :
    IsFloor text offset (floorBoundary text offset) := by
  have inside := isFloor_boundaryBefore text (min offset text.utf8ByteSize)
  refine ⟨inside.isBoundary, Nat.le_trans inside.le (Nat.min_le_left _ _), ?_⟩
  intro other isBoundary le
  exact inside.greatest other isBoundary (Nat.le_min.2 ⟨le, isBoundary.le⟩)

theorem byteCount_charsWithin_le (size : Nat) (cs : List Char) :
    byteCount (charsWithin size cs) ≤ size := by
  induction cs generalizing size with
  | nil => exact Nat.zero_le size
  | cons c rest induction =>
      rw [charsWithin]
      split
      next fits =>
        have later := induction (size - c.utf8Size)
        rw [byteCount_cons]
        omega
      next => exact Nat.zero_le size

theorem charsWithin_prefix (size : Nat) (cs : List Char) : charsWithin size cs <+: cs := by
  induction cs generalizing size with
  | nil => exact List.prefix_refl []
  | cons c rest induction =>
      rw [charsWithin]
      split
      · exact List.cons_prefix_cons.2 ⟨rfl, induction (size - c.utf8Size)⟩
      · exact List.nil_prefix

theorem byteCount_le_charsWithin {size : Nat} {front back : List Char}
    (fits : byteCount front ≤ size) :
    byteCount front ≤ byteCount (charsWithin size (front ++ back)) := by
  induction front generalizing size with
  | nil => exact Nat.zero_le _
  | cons c front induction =>
      rw [byteCount_cons] at fits
      have remain : byteCount front ≤ size - c.utf8Size := by omega
      have later := induction remain
      rw [List.cons_append, charsWithin, if_pos (by omega), byteCount_cons, byteCount_cons]
      omega

theorem exists_front (text : String) (offset : Nat) : ∃ front back, text = front ++ back ∧
    front.utf8ByteSize = floorBoundary text offset ∧
    positionAt text offset = Position.start.advance front := by
  obtain ⟨back, whole⟩ := charsWithin_prefix offset text.toList
  let front := String.ofList (charsWithin offset text.toList)
  have cut : text = front ++ String.ofList back := by
    rw [← String.ofList_append, whole, String.ofList_toList]
  have isFloor : IsFloor text offset front.utf8ByteSize := by
    refine ⟨⟨front, String.ofList back, cut, rfl⟩, ?_, ?_⟩
    · rw [← byteCount_eq]
      exact byteCount_charsWithin_le offset text.toList
    · rintro other ⟨first, second, rfl, rfl⟩ le
      rw [← byteCount_eq, String.toList_append]
      rw [← String.ofList_toList (s := first), ← byteCount_eq] at le ⊢
      rw [String.toList_ofList] at *
      exact byteCount_le_charsWithin le
  refine ⟨front, String.ofList back, cut, isFloor.unique (isFloor_floorBoundary text offset), ?_⟩
  rw [positionAt, Position.advance, String.toList_ofList]

theorem exists_between {front back longer rest : String} (same : front ++ back = longer ++ rest)
    (less : front.utf8ByteSize < longer.utf8ByteSize) :
    ∃ middle, middle.toList ≠ [] ∧ longer = front ++ middle := by
  have lists : front.toList ++ back.toList = longer.toList ++ rest.toList := by
    rw [← String.toList_append, same, String.toList_append]
  rcases List.append_eq_append_iff.1 lists with ⟨middle, equal, -⟩ | ⟨middle, equal, -⟩
  · have joined : longer = front ++ String.ofList middle := by
      rw [← String.toList_inj, equal]
      simp
    refine ⟨String.ofList middle, ?_, joined⟩
    rw [String.toList_ofList]
    rintro rfl
    simp [joined] at less
  · have joined : front = longer ++ String.ofList middle := by
      rw [← String.toList_inj, equal]
      simp
    rw [joined, String.utf8ByteSize_append] at less
    omega

theorem positionAt_before {low high : Nat} (lowIs : IsBoundary text low)
    (highIs : IsBoundary text high) (less : low < high) :
    (positionAt text low).Before (positionAt text high) := by
  obtain ⟨front, back, rfl, rfl⟩ := lowIs
  obtain ⟨longer, rest, same, rfl⟩ := highIs
  obtain ⟨middle, nonempty, rfl⟩ := exists_between same less
  have high := positionAt_append (front ++ middle) rest
  rw [← same, Position.advance_append] at high
  rw [high, positionAt_append]
  exact Position.before_advanceChars nonempty

theorem positionAt_injective {low high : Nat} (lowIs : IsBoundary text low)
    (highIs : IsBoundary text high) (same : positionAt text low = positionAt text high) :
    low = high := by
  rcases Nat.lt_trichotomy low high with less | equal | greater
  · exact absurd same (positionAt_before lowIs highIs less).ne
  · exact equal
  · exact absurd same.symm (positionAt_before highIs lowIs greater).ne

theorem positionAt_floorBoundary (text : String) (offset : Nat) :
    positionAt text (floorBoundary text offset) = positionAt text offset := by
  obtain ⟨front, back, rfl, isFloor, position⟩ := exists_front text offset
  rw [position, ← isFloor, positionAt_append]

theorem floorBoundary_of_le (behind : text.utf8ByteSize ≤ offset) :
    floorBoundary text offset = text.utf8ByteSize := by
  have isFloor : IsFloor text offset text.utf8ByteSize :=
    ⟨isBoundary_size text, behind, fun _ isBoundary _ => isBoundary.le⟩
  exact (isFloor_floorBoundary text offset).unique isFloor

theorem length_le_utf8ByteSize (text : String) : text.toList.length ≤ text.utf8ByteSize := by
  rw [← String.ofList_toList (s := text), ← byteCount_eq, String.toList_ofList]
  induction text.toList with
  | nil => exact Nat.le_refl 0
  | cons c rest induction =>
      have := c.utf8Size_pos
      rw [List.length_cons, byteCount_cons]
      omega

theorem positionAt_bounds (text : String) (offset : Nat) :
    (1 ≤ (positionAt text offset).line ∧
      (positionAt text offset).line ≤ 1 + min offset text.utf8ByteSize) ∧
    (1 ≤ (positionAt text offset).column ∧
      (positionAt text offset).column ≤ 1 + min offset text.utf8ByteSize) := by
  obtain ⟨front, back, cut, isFloor, equal⟩ := exists_front text offset
  have floor := isFloor_floorBoundary text offset
  have inside : front.toList.length ≤ min offset text.utf8ByteSize := by
    apply Nat.le_trans (length_le_utf8ByteSize front)
    rw [isFloor]
    exact Nat.le_min.2 ⟨floor.le, floor.isBoundary.le⟩
  have upper : (positionAt text offset).line ≤ 1 + front.toList.length ∧
      (positionAt text offset).column ≤ 1 + front.toList.length := by
    rw [equal]
    exact Position.start.advanceChars_le front.toList
  have lower : 1 ≤ (positionAt text offset).line ∧ 1 ≤ (positionAt text offset).column := by
    rw [equal, Position.advance, advanceChars_start]
    exact ⟨Nat.le_add_right _ _, Nat.le_add_right _ _⟩
  omega

end Text

namespace StoredPosition

theorem at?_eq (text : String) (offset : Nat) :
    at? text offset = some (Text.positionAt text offset).stored := by
  obtain ⟨front, back, rfl, isFloor, position⟩ := Text.exists_front text offset
  rw [at?, ← isFloor, Text.upTo?_append, position]
  exact stored_advance Position.start front

theorem position_stored {text : String} {offset : Nat}
    (few : min offset text.utf8ByteSize + 1 < UInt32.size) :
    (Text.positionAt text offset).stored.position = Text.positionAt text offset := by
  obtain ⟨⟨-, line⟩, -, column⟩ := Text.positionAt_bounds text offset
  rw [Position.stored, position, UInt32.toNat_ofNat_of_lt' (by omega),
    UInt32.toNat_ofNat_of_lt' (by omega)]

theorem eq_of_ofNat_eq {first second : Nat} (firstBounds : 1 ≤ first ∧ first ≤ UInt32.size)
    (secondBounds : 1 ≤ second ∧ second ≤ UInt32.size)
    (same : UInt32.ofNat first = UInt32.ofNat second) : first = second := by
  have residues : first % UInt32.size = second % UInt32.size := by
    have numbers := congrArg UInt32.toNat same
    rwa [UInt32.toNat_ofNat', UInt32.toNat_ofNat'] at numbers
  simp only [UInt32.size] at firstBounds secondBounds residues
  omega

theorem at?_injective {text : String} {low high : Nat} (fits : text.utf8ByteSize < UInt32.size)
    (lowIs : Text.IsBoundary text low) (highIs : Text.IsBoundary text high)
    (same : at? text low = at? text high) : low = high := by
  rw [at?_eq, at?_eq, Option.some.injEq, Position.stored, Position.stored,
    StoredPosition.mk.injEq] at same
  have lowBounds := Text.positionAt_bounds text low
  have highBounds := Text.positionAt_bounds text high
  have line : (Text.positionAt text low).line = (Text.positionAt text high).line :=
    eq_of_ofNat_eq (by omega) (by omega) same.1
  have column : (Text.positionAt text low).column = (Text.positionAt text high).column :=
    eq_of_ofNat_eq (by omega) (by omega) same.2
  have equal := congr (congrArg Position.mk line) column
  exact Text.positionAt_injective lowIs highIs equal

end StoredPosition

namespace StoredPosition

/-- On an earlier line, or on the same line in an earlier column, by the numbers as stored. -/
def Before (first second : StoredPosition) : Prop := first.position.Before second.position

end StoredPosition

/-! ## Words that run over -/

namespace Text

variable {text : String}

/-- No number of the position behind the text runs over its word. -/
structure Counted (text : String) : Prop where
  lines : 1 + text.toList.count '\n' < UInt32.size
  columns : 1 + (lastLine text.toList).length < UInt32.size

theorem positionAt_zero (text : String) : positionAt text 0 = Position.start := by
  have front := positionAt_append "" text
  rwa [String.empty_append] at front

theorem positionAt_end {offset : Nat} (behind : text.utf8ByteSize ≤ offset) :
    positionAt text offset =
      ⟨1 + text.toList.count '\n', 1 + (lastLine text.toList).length⟩ := by
  have whole := positionAt_append text ""
  rw [String.append_empty] at whole
  rw [← positionAt_floorBoundary, floorBoundary_of_le behind, whole, Position.advance,
    advanceChars_start]

theorem count_add_length_lastLine_le (text : String) :
    text.toList.count '\n' + (lastLine text.toList).length ≤ text.utf8ByteSize := by
  apply Nat.le_trans _ (length_le_utf8ByteSize text)
  by_cases member : '\n' ∈ text.toList
  · obtain ⟨front, back, equal, absent⟩ := exists_lastBreak member
    have breaks : front.count '\n' ≤ front.length := List.count_le_length
    have last : lastLine (front ++ '\n' :: back) = back := by
      rw [lastLine_append_cons, lastLine, splitAt_eq_singleton absent]
      rfl
    rw [equal, last, List.count_append, List.count_cons_self, List.count_eq_zero.2 absent,
      List.length_append, List.length_cons]
    omega
  · rw [List.count_eq_zero.2 member, lastLine, splitAt_eq_singleton member]
    simp

theorem Counted.position_stored (counted : Counted text) (fits : text.utf8ByteSize < UInt32.size)
    (offset : Nat) : (positionAt text offset).stored.position = positionAt text offset := by
  by_cases behind : text.utf8ByteSize ≤ offset
  · rw [positionAt_end behind, Position.stored, StoredPosition.position,
      UInt32.toNat_ofNat_of_lt' counted.lines, UInt32.toNat_ofNat_of_lt' counted.columns]
  · apply StoredPosition.position_stored
    omega

theorem Counted.before (counted : Counted text) (fits : text.utf8ByteSize < UInt32.size)
    {low high : Nat} (lowIs : IsBoundary text low) (highIs : IsBoundary text high)
    (less : low < high) : (positionAt text low).stored.Before (positionAt text high).stored := by
  rw [StoredPosition.Before, counted.position_stored fits, counted.position_stored fits]
  exact positionAt_before lowIs highIs less

theorem counted_of_before (fits : text.utf8ByteSize < UInt32.size)
    (before : 0 < text.utf8ByteSize → (positionAt text 0).stored.Before
      (positionAt text text.utf8ByteSize).stored) : Counted text := by
  have both := count_add_length_lastLine_le text
  rw [positionAt_zero, positionAt_end (Nat.le_refl _)] at before
  simp only [StoredPosition.Before, Position.Before, StoredPosition.position, Position.stored,
    UInt32.toNat_ofNat', Position.start] at before
  constructor
  all_goals
    simp only [UInt32.size] at *
    omega

end Text

namespace StoredPosition

/-- Moving past two pieces one after the other is moving past them joined, from any position. No
two boundaries between characters of a text whose length fits into a word have the same
position, and an offset that is none has the position of the last boundary in front of it, which
behind the text is its end. Positions grow with the boundaries, first in the line and then in
the column, and the line counts the line breaks in front of the offset and the column the
characters behind the last of them, for exactly the texts whose last position runs over neither
word. -/
theorem positions_follow_offsets {text : String} (fits : text.utf8ByteSize < UInt32.size) :
    (∀ (place : StoredPosition) (first second : String), ∃ between last,
      place.advance? first = some between ∧ between.advance? second = some last ∧
        place.advance? (first ++ second) = some last) ∧
    (∀ low high, Text.IsBoundary text low → Text.IsBoundary text high →
      at? text low = at? text high → low = high) ∧
    (∀ offset, Text.IsFloor text offset (Text.floorBoundary text offset) ∧
      (text.utf8ByteSize ≤ offset → Text.floorBoundary text offset = text.utf8ByteSize) ∧
      at? text offset = at? text (Text.floorBoundary text offset)) ∧
    ((∀ low high, Text.IsBoundary text low → Text.IsBoundary text high → low < high →
      ∃ lower higher, at? text low = some lower ∧ at? text high = some higher ∧
        lower.Before higher) ↔ Text.Counted text) ∧
    ((∀ offset, ∃ front back place, text = front ++ back ∧
      front.utf8ByteSize = Text.floorBoundary text offset ∧ at? text offset = some place ∧
      place.position = ⟨1 + front.toList.count '\n', 1 + (Text.lastLine front.toList).length⟩) ↔
        Text.Counted text) := by
  refine ⟨advance?_append, ?_, ?_, ⟨?_, ?_⟩, ⟨?_, ?_⟩⟩
  · intro low high lowIs highIs
    exact at?_injective fits lowIs highIs
  · intro offset
    refine ⟨Text.isFloor_floorBoundary text offset, Text.floorBoundary_of_le, ?_⟩
    rw [at?_eq, at?_eq, Text.positionAt_floorBoundary]
  · intro grows
    apply Text.counted_of_before fits
    intro nonempty
    obtain ⟨lower, higher, lowerIs, higherIs, before⟩ :=
      grows 0 text.utf8ByteSize (Text.isBoundary_zero text) (Text.isBoundary_size text) nonempty
    rw [at?_eq, Option.some.injEq] at lowerIs higherIs
    rwa [← lowerIs, ← higherIs] at before
  · intro counted low high lowIs highIs less
    exact ⟨_, _, at?_eq text low, at?_eq text high, counted.before fits lowIs highIs less⟩
  · intro counts
    obtain ⟨front, back, place, cut, isFloor, -, numbers⟩ := counts text.utf8ByteSize
    rw [Text.floorBoundary_of_le (Nat.le_refl _)] at isFloor
    have nothing : back = "" := by
      have size := congrArg String.utf8ByteSize cut
      rw [String.utf8ByteSize_append] at size
      apply String.utf8ByteSize_eq_zero_iff.1
      omega
    have whole : text = front := by rw [cut, nothing, String.append_empty]
    rw [← whole, position, Position.mk.injEq] at numbers
    exact ⟨numbers.1 ▸ place.line.toNat_lt_size, numbers.2 ▸ place.column.toNat_lt_size⟩
  · intro counted offset
    obtain ⟨front, back, cut, isFloor, equal⟩ := Text.exists_front text offset
    refine ⟨front, back, _, cut, isFloor, at?_eq text offset, ?_⟩
    rw [counted.position_stored fits, equal, Position.advance, Text.advanceChars_start]

/-- Between the two lines of a text, and inside a character. -/
theorem positions_follow_offsets_of_two_lines :
    Text.Counted "a\né" ∧ at? "a\né" 3 = at? "a\né" 2 ∧
    ∃ lower higher, at? "a\né" 1 = some lower ∧ at? "a\né" 2 = some higher ∧
      lower.Before higher := by
  have fits : "a\né".utf8ByteSize < UInt32.size := by decide
  have counted : Text.Counted "a\né" := ⟨by decide, by decide⟩
  obtain ⟨-, -, floor, grows, -⟩ := positions_follow_offsets fits
  refine ⟨counted, (floor 3).2.2, ?_⟩
  exact grows.2 counted 1 2 ⟨"a", "\né", rfl, rfl⟩ ⟨"a\n", "é", rfl, rfl⟩ (by decide)

end StoredPosition

namespace Text

/-- A text of line breaks only. -/
def breaks (count : Nat) : String := String.ofList (List.replicate count '\n')

theorem breaks_add (first second : Nat) : breaks (first + second) =
    breaks first ++ breaks second := by
  rw [breaks, ← List.replicate_append_replicate, String.ofList_append]
  rfl

theorem utf8ByteSize_breaks (count : Nat) : (breaks count).utf8ByteSize = count := by
  rw [breaks, ← byteCount_eq]
  induction count with
  | zero => rfl
  | succ count induction =>
      rw [List.replicate_succ, byteCount_cons, induction, Nat.add_comm]
      rfl

theorem isBoundary_breaks (front back : Nat) : IsBoundary (breaks (front + back)) front :=
  ⟨breaks front, breaks back, breaks_add front back, (utf8ByteSize_breaks front).symm⟩

theorem advanceChars_breaks (position : Position) (count : Nat) :
    (position.advanceChars ('\n' :: List.replicate count '\n')) =
      ⟨position.line + 1 + count, 1⟩ := by
  induction count generalizing position with
  | zero => rfl
  | succ count induction =>
      rw [Position.advanceChars_cons, List.replicate_succ, induction, Position.mk.injEq]
      constructor
      · simp only [Position.step, if_true]
        omega
      · rfl

theorem at?_breaks (front back : Nat) :
    StoredPosition.at? (breaks (front + 1 + back)) (front + 1) = some ⟨.ofNat (2 + front), 1⟩ := by
  have ending : positionAt (breaks (front + 1) ++ breaks back) (breaks (front + 1)).utf8ByteSize =
      ⟨2 + front, 1⟩ := by
    rw [positionAt_append, Position.advance, breaks, String.toList_ofList, List.replicate_succ,
      advanceChars_breaks]
    rfl
  rw [utf8ByteSize_breaks, ← breaks_add] at ending
  rw [StoredPosition.at?_eq, ending]
  rfl

end Text

/-- Behind the longest text whose length fits into a word, when it is line breaks only, the line is
zero. -/
theorem StoredPosition.line_behind_breaks :
    (Text.breaks 4294967295).utf8ByteSize < UInt32.size ∧
    Text.IsBoundary (Text.breaks 4294967295) 4294967294 ∧
    Text.IsBoundary (Text.breaks 4294967295) 4294967295 ∧
    at? (Text.breaks 4294967295) 4294967294 = some ⟨4294967295, 1⟩ ∧
    at? (Text.breaks 4294967295) 4294967295 = some ⟨0, 1⟩ ∧
    ¬ (StoredPosition.mk 4294967295 1).Before ⟨0, 1⟩ := by
  refine ⟨?_, ?_, ?_, ?_, ?_, ?_⟩
  · rw [Text.utf8ByteSize_breaks]
    decide
  · exact Text.isBoundary_breaks 4294967294 1
  · exact Text.isBoundary_breaks 4294967295 0
  · exact Text.at?_breaks 4294967293 1
  · exact Text.at?_breaks 4294967294 0
  · simp [Before, Position.Before, position]

end Verbatim
