import Verbatim.Text.Span

/-! Where a piece of a text stands, told by bytes. A slice is taken at two offsets; that it is the
piece in question is shown by writing the text as what comes before it, the piece, and what comes
behind it. -/

namespace Verbatim.Text

/-- The piece stands in the text at the bytes from `start` up to `stop`. -/
def StandsAt (text : String) (start stop : Nat) (piece : String) : Prop :=
  ∃ front back, text = front ++ piece ++ back ∧ start = front.utf8ByteSize ∧
    stop = start + piece.utf8ByteSize

theorem append_inj_of_utf8ByteSize_eq {front other back rest : String}
    (equal : front ++ back = other ++ rest) (size : front.utf8ByteSize = other.utf8ByteSize) :
    front = other ∧ back = rest := by
  have valid : String.Pos.Raw.IsValid (front ++ back) front.rawEndPos :=
    String.Pos.Raw.isValid_iff_exists_append.2 ⟨front, back, rfl, rfl⟩
  have left : ((front ++ back).pos front.rawEndPos valid).Splits front back := ⟨rfl, by simp⟩
  have right : ((front ++ back).pos front.rawEndPos valid).Splits other rest :=
    ⟨equal, by simp [String.Pos.Raw.ext_iff, size]⟩
  exact left.eq right

namespace StandsAt

variable {text piece first second : String} {start middle stop : Nat}

theorem start_le_stop (here : StandsAt text start stop piece) : start ≤ stop := by
  rcases here with ⟨front, back, -, -, stopEqual⟩
  omega

theorem append (here : StandsAt text start middle first)
    (next : StandsAt text middle stop second) : StandsAt text start stop (first ++ second) := by
  rcases here with ⟨front, back, textEqual, startEqual, middleEqual⟩
  rcases next with ⟨other, rest, otherEqual, middleOther, stopEqual⟩
  have size : (front ++ first).utf8ByteSize = other.utf8ByteSize := by
    rw [String.utf8ByteSize_append]
    omega
  have split : (front ++ first) ++ back = other ++ (second ++ rest) := by
    rw [← textEqual, otherEqual, String.append_assoc]
  have backEqual := (append_inj_of_utf8ByteSize_eq split size).2
  refine ⟨front, rest, ?_, startEqual, ?_⟩
  · rw [textEqual, backEqual]
    simp [String.append_assoc]
  · rw [String.utf8ByteSize_append]
    omega

theorem split (here : StandsAt text start stop (first ++ second)) :
    StandsAt text start (start + first.utf8ByteSize) first ∧
      StandsAt text (start + first.utf8ByteSize) stop second := by
  rcases here with ⟨front, back, rfl, rfl, rfl⟩
  refine ⟨⟨front, second ++ back, by simp [String.append_assoc], rfl, rfl⟩,
    ⟨front ++ first, back, by simp [String.append_assoc], by simp, ?_⟩⟩
  rw [String.utf8ByteSize_append, Nat.add_assoc]

theorem empty_at_start (here : StandsAt text start stop piece) : StandsAt text start start "" := by
  rcases here with ⟨front, back, rfl, rfl, -⟩
  exact ⟨front, piece ++ back, by simp [String.append_assoc], rfl, by simp⟩

theorem empty_at_stop (here : StandsAt text start stop piece) : StandsAt text stop stop "" := by
  rcases here with ⟨front, back, rfl, rfl, rfl⟩
  exact ⟨front ++ piece, back, by simp [String.append_assoc], by simp, by simp⟩

theorem eq_of_whole (here : StandsAt text 0 text.utf8ByteSize piece) : piece = text := by
  rcases here with ⟨front, back, equal, start, stop⟩
  have sizes : text.utf8ByteSize =
      front.utf8ByteSize + piece.utf8ByteSize + back.utf8ByteSize := by
    rw [congrArg String.utf8ByteSize equal, String.utf8ByteSize_append, String.utf8ByteSize_append]
  have noFront : front = "" := String.utf8ByteSize_eq_zero_iff.1 start.symm
  have noBack : back = "" := String.utf8ByteSize_eq_zero_iff.1 (by omega)
  rw [equal, noFront, noBack, String.append_empty, String.empty_append]

end StandsAt

theorem pos?_of_eq_append {text front back : String} (equal : text = front ++ back) :
    ∃ position, text.pos? ⟨front.utf8ByteSize⟩ = some position ∧
      position.offset.byteIdx = front.utf8ByteSize := by
  subst equal
  have valid : String.Pos.Raw.IsValid (front ++ back) front.rawEndPos :=
    String.Pos.Raw.isValid_iff_exists_append.2 ⟨front, back, rfl, rfl⟩
  have accepted : String.Pos.Raw.isValidForSlice (front ++ back).toSlice front.rawEndPos = true :=
    String.Pos.Raw.isValidForSlice_eq_true_iff.2 valid.toSlice
  have found : (front ++ back).toSlice.pos? front.rawEndPos =
      some ((front ++ back).toSlice.pos front.rawEndPos valid.toSlice) := by
    simp [String.Slice.pos?, accepted]
  exact ⟨(front ++ back).pos front.rawEndPos valid,
    congrArg (Option.map String.Pos.ofToSlice) found, by simp⟩

theorem StandsAt.slice? {text piece : String} {span : Span}
    (here : StandsAt text span.start span.stop piece) : span.slice? text = some piece := by
  rcases here with ⟨front, back, textEqual, startEqual, stopEqual⟩
  rcases pos?_of_eq_append (textEqual.trans (String.append_assoc ..)) with
    ⟨first, firstFound, firstOffset⟩
  rcases pos?_of_eq_append textEqual with ⟨last, lastFound, lastOffset⟩
  rw [String.utf8ByteSize_append] at lastFound lastOffset
  have bytes : (text.extract first last).toByteArray = piece.toByteArray := by
    rw [String.toByteArray_extract, firstOffset, lastOffset, textEqual]
    simp only [String.toByteArray_append, ← String.size_toByteArray]
    rw [ByteArray.append_assoc]
    have inner := ByteArray.extract_append_size_add (a := front.toByteArray)
      (b := piece.toByteArray ++ back.toByteArray) (i := 0) (j := piece.toByteArray.size)
    rw [Nat.add_zero] at inner
    rw [inner, ByteArray.extract_append_eq_left rfl]
  simp only [Span.slice?, startEqual, stopEqual]
  rw [firstFound, lastFound]
  exact congrArg some (String.toByteArray_inj.1 bytes)

end Verbatim.Text
