import Verbatim.Text.Position
import Verbatim.Tree.Trivia

/-! Offsets count bytes, and what is told by an offset is told by the text in front of it: a
piece is as long as its parts together, and the position of an offset is reached by moving over
everything in front of it. -/

namespace Verbatim

theorem Text.utf8ByteSize_join (pieces : List String) :
    (String.join pieces).utf8ByteSize =
      pieces.foldr (fun piece count => piece.utf8ByteSize + count) 0 := by
  induction pieces with
  | nil => simp
  | cons piece pieces induction =>
      rw [String.join_cons, String.utf8ByteSize_append, induction, List.foldr_cons]

theorem Text.byteCount_eq (cs : List Char) : byteCount cs = (String.ofList cs).utf8ByteSize := by
  induction cs with
  | nil => rfl
  | cons c cs induction =>
      rw [byteCount, List.foldr_cons, ← byteCount, induction, String.ofList_cons,
        String.utf8ByteSize_append, String.utf8ByteSize_singleton]

theorem Trivia.byteCount_eq (trivia : Trivia) : trivia.byteCount = trivia.text.utf8ByteSize := by
  rw [byteCount, text, Text.utf8ByteSize_join]

namespace Text

theorem byteCount_cons (c : Char) (cs : List Char) :
    byteCount (c :: cs) = c.utf8Size + byteCount cs :=
  rfl

theorem byteCount_append (front back : List Char) :
    byteCount (front ++ back) = byteCount front + byteCount back := by
  rw [byteCount_eq, byteCount_eq, byteCount_eq, String.ofList_append, String.utf8ByteSize_append]

theorem byteCount_eq_zero_iff {cs : List Char} : byteCount cs = 0 ↔ cs = [] := by
  cases cs with
  | nil => exact iff_of_true rfl rfl
  | cons c cs =>
      have := c.utf8Size_pos
      rw [byteCount_cons]
      exact iff_of_false (by omega) (List.cons_ne_nil _ _)

theorem charsWithin_append (front back : List Char) :
    charsWithin (String.ofList front).utf8ByteSize (front ++ back) = front := by
  induction front with
  | nil =>
      cases back with
      | nil => rfl
      | cons c back =>
          have := c.utf8Size_pos
          rw [String.ofList_nil, String.utf8ByteSize_empty, List.nil_append, charsWithin,
            if_neg (by omega)]
  | cons c front induction =>
      rw [String.ofList_cons, String.utf8ByteSize_append, String.utf8ByteSize_singleton,
        List.cons_append, charsWithin, if_pos (Nat.le_add_right ..), Nat.add_sub_cancel_left,
        induction]

theorem positionAt_append (front back : String) :
    positionAt (front ++ back) front.utf8ByteSize = Position.start.advance front := by
  have inside := charsWithin_append front.toList back.toList
  rw [String.ofList_toList] at inside
  rw [positionAt, String.toList_append, inside, Position.advance]

end Text

end Verbatim
