import Verbatim.Text.Lines

/-! Texts and their pieces. No piece holds the separator, and a text that is put together from
pieces without it falls into these pieces again. -/

namespace Verbatim.Text

theorem not_mem_of_mem_splitAt {separator : Char} {cs piece : List Char}
    (member : piece ∈ splitAt separator cs) : separator ∉ piece := by
  induction cs generalizing piece with
  | nil =>
      rw [List.mem_singleton.1 member]
      exact List.not_mem_nil
  | cons c rest induction =>
      rw [splitAt] at member
      split at member
      · rcases List.mem_cons.1 member with rfl | member
        · exact List.not_mem_nil
        · exact induction member
      next different =>
        split at member
        next none => exact absurd none (splitAt_ne_nil _ _)
        next first pieces found =>
          rw [found] at induction
          rcases List.mem_cons.1 member with rfl | member
          · rw [List.mem_cons, not_or]
            exact ⟨fun same => different same.symm, induction List.mem_cons_self⟩
          · exact induction (List.mem_cons_of_mem _ member)

theorem splitAt_append_cons (separator : Char) (front back : List Char) :
    splitAt separator (front ++ separator :: back) =
      splitAt separator front ++ splitAt separator back := by
  induction front with
  | nil => simp [splitAt]
  | cons c front induction =>
      rw [List.cons_append, splitAt, splitAt, induction]
      split
      · rfl
      · cases split : splitAt separator front with
        | nil => exact absurd split (splitAt_ne_nil _ _)
        | cons piece pieces => rfl

theorem splitAt_eq_singleton {separator : Char} {cs : List Char} (absent : separator ∉ cs) :
    splitAt separator cs = [cs] := by
  induction cs with
  | nil => rfl
  | cons c rest induction =>
      rw [splitAt, if_neg fun equal => absent (List.mem_cons.2 (.inl equal.symm)),
        induction fun member => absent (List.mem_cons_of_mem _ member)]

theorem mem_joinWith {separator c : Char} {pieces : List (List Char)} {piece : List Char}
    (isPiece : piece ∈ pieces) (member : c ∈ piece) : c ∈ joinWith separator pieces := by
  induction pieces with
  | nil => cases isPiece
  | cons first rest induction =>
      cases rest with
      | nil => exact List.mem_singleton.1 isPiece ▸ member
      | cons next rest =>
          rw [joinWith, List.mem_append]
          rcases List.mem_cons.1 isPiece with rfl | isPiece
          · exact .inl member
          · exact .inr (List.mem_cons_of_mem _ (induction isPiece))

theorem of_mem_joinWith {separator c : Char} {pieces : List (List Char)}
    (member : c ∈ joinWith separator pieces) :
    c = separator ∨ ∃ piece ∈ pieces, c ∈ piece := by
  induction pieces with
  | nil => cases member
  | cons first rest induction =>
      cases rest with
      | nil => exact .inr ⟨first, List.mem_cons_self, member⟩
      | cons next rest =>
          rw [joinWith, List.mem_append, List.mem_cons] at member
          rcases member with inFirst | isSeparator | behind
          · exact .inr ⟨first, List.mem_cons_self, inFirst⟩
          · exact .inl isSeparator
          · rcases induction behind with isSeparator | ⟨piece, isPiece, inside⟩
            · exact .inl isSeparator
            · exact .inr ⟨piece, List.mem_cons_of_mem _ isPiece, inside⟩

/-! ## The last line -/

theorem not_mem_lastLine (cs : List Char) : '\n' ∉ lastLine cs := by
  rw [lastLine, List.getLastD_eq_getLast?]
  cases last : (splitAt '\n' cs).getLast? with
  | none => exact List.not_mem_nil
  | some piece => exact not_mem_of_mem_splitAt (List.mem_of_getLast? last)

theorem lastLine_append_cons (front back : List Char) :
    lastLine (front ++ '\n' :: back) = lastLine back := by
  rw [lastLine, lastLine, splitAt_append_cons, List.getLastD_eq_getLast?, List.getLastD_eq_getLast?,
    List.getLast?_append]
  cases last : (splitAt '\n' back).getLast? with
  | none => exact absurd (List.getLast?_eq_none_iff.1 last) (splitAt_ne_nil _ _)
  | some piece => rfl

theorem lastLine_lastLine (cs : List Char) : lastLine (lastLine cs) = lastLine cs := by
  rw [lastLine.eq_def (lastLine cs), splitAt_eq_singleton (not_mem_lastLine cs)]
  rfl

theorem lastLine_subset (cs : List Char) : lastLine cs ⊆ cs := by
  intro c member
  rw [lastLine, List.getLastD_eq_getLast?] at member
  cases last : (splitAt '\n' cs).getLast? with
  | none =>
      rw [last] at member
      cases member
  | some piece =>
      rw [last] at member
      rw [← joinWith_splitAt '\n' cs]
      exact mem_joinWith (List.mem_of_getLast? last) member

end Verbatim.Text
