import Mathlib.Data.List.DropRight
import Mathlib.Data.List.Forall2
import Verbatim.Proofs.Text.Pieces
import Verbatim.Proofs.Text.Positions

/-! Trimming the margin of a text. The margin that all lines share is counted in bytes, and a
line that it does not divide between two characters is lost; where it divides every line that is
not blank, nothing is lost but white space, and trimming once is trimming for good. -/

namespace Verbatim.Text

/-! ## White space -/

/-- The characters that are not white space, in their order. -/
def ink (cs : List Char) : List Char := cs.filter fun c => !isBlank c

theorem ink_append (front back : List Char) : ink (front ++ back) = ink front ++ ink back :=
  List.filter_append front back

theorem ink_eq_nil_iff {cs : List Char} : ink cs = [] ↔ isBlankText cs = true := by
  simp [ink, isBlankText]

theorem ink_of_forall {cs : List Char} (blank : ∀ c ∈ cs, isBlank c = true) : ink cs = [] :=
  ink_eq_nil_iff.2 (List.all_eq_true.2 blank)

theorem trimEnd_append_rtakeWhile (cs : List Char) : trimEnd cs ++ cs.rtakeWhile isBlank = cs :=
  List.rdropWhile_append_rtakeWhile

theorem ink_trimEnd (cs : List Char) : ink (trimEnd cs) = ink cs := by
  have blank : ink (cs.rtakeWhile isBlank) = [] := ink_of_forall fun c => List.mem_rtakeWhile_imp
  conv_rhs => rw [← trimEnd_append_rtakeWhile cs]
  rw [ink_append, blank, List.append_nil]

theorem trimEnd_trimEnd (cs : List Char) : trimEnd (trimEnd cs) = trimEnd cs :=
  List.rdropWhile_idempotent isBlank cs

theorem isBlankText_trimEnd (cs : List Char) : isBlankText (trimEnd cs) = isBlankText cs := by
  rw [Bool.eq_iff_iff, ← ink_eq_nil_iff, ink_trimEnd, ink_eq_nil_iff]

/-! ## Lines -/

theorem ink_joinWith {separator : Char} (blank : isBlank separator = true)
    (pieces : List (List Char)) : ink (joinWith separator pieces) = pieces.flatMap ink := by
  induction pieces with
  | nil => rfl
  | cons piece pieces induction =>
      cases pieces with
      | nil => rw [joinWith, List.flatMap_singleton]
      | cons next pieces =>
          have noInk : ink [separator] = [] := ink_of_forall fun c member => by
            rw [List.mem_singleton.1 member, blank]
          rw [joinWith, List.append_cons, ink_append, ink_append, noInk, List.append_nil, induction]
          exact List.flatMap_cons.symm

theorem ink_dropReturn (piece : List Char) : ink (linesOfPieces.dropReturn piece) = ink piece := by
  rw [linesOfPieces.dropReturn]
  split
  next returns =>
    rcases List.getLast?_eq_some_iff.1 returns with ⟨front, rfl⟩
    rw [List.dropLast_concat, ink_append]
    simp [ink, isBlank, inRanges, blankRanges]
  next => rfl

theorem flatMap_ink_lines (cs : List Char) : (lines cs).flatMap ink = ink cs := by
  have pieces : ∀ pieces, (linesOfPieces pieces).flatMap ink = pieces.flatMap ink := by
    intro pieces
    fun_induction linesOfPieces pieces with
    | case1 => rfl
    | case2 final empty =>
        rw [List.isEmpty_iff.1 empty]
        rfl
    | case3 final some => rfl
    | case4 piece next pieces induction =>
        rw [List.flatMap_cons, ink_dropReturn, induction, ← List.flatMap_cons]
  rw [lines, pieces, ← @ink_joinWith '\n' (by decide), joinWith_splitAt]

theorem not_mem_of_mem_lines {cs row : List Char} (member : row ∈ lines cs) : '\n' ∉ row := by
  have pieces : ∀ pieces : List (List Char), (∀ piece ∈ pieces, '\n' ∉ piece) →
      ∀ row ∈ linesOfPieces pieces, '\n' ∉ row := by
    intro pieces
    fun_induction linesOfPieces pieces with
    | case1 => exact fun _ row inside => absurd inside List.not_mem_nil
    | case2 final empty => exact fun _ row inside => absurd inside List.not_mem_nil
    | case3 final some => exact fun all => all
    | case4 piece next pieces induction =>
        intro all
        rw [List.forall_mem_cons] at all ⊢
        refine ⟨fun inside => all.1 ?_, induction all.2⟩
        rw [linesOfPieces.dropReturn] at inside
        split at inside
        · exact List.dropLast_subset _ inside
        · exact inside
  exact pieces _ (fun _ => not_mem_of_mem_splitAt) row member

theorem splitAt_joinWith {separator : Char} {pieces : List (List Char)} (some : pieces ≠ [])
    (apart : ∀ piece ∈ pieces, separator ∉ piece) :
    splitAt separator (joinWith separator pieces) = pieces := by
  induction pieces with
  | nil => exact absurd rfl some
  | cons piece pieces induction =>
      rw [List.forall_mem_cons] at apart
      cases pieces with
      | nil => exact splitAt_eq_singleton apart.1
      | cons next pieces =>
          rw [joinWith, splitAt_append_cons, splitAt_eq_singleton apart.1,
            induction (List.cons_ne_nil _ _) apart.2]
          rfl

/-- Lines that do not end in white space, the last of which is not empty, are the lines of the
text that they are together. -/
theorem lines_joinWith {rows : List (List Char)} (apart : ∀ row ∈ rows, '\n' ∉ row)
    (trimmed : ∀ row ∈ rows, trimEnd row = row) (last : ∀ row ∈ rows.getLast?, row ≠ []) :
    lines (joinWith '\n' rows) = rows := by
  have pieces : ∀ rows : List (List Char), (∀ row ∈ rows, trimEnd row = row) →
      (∀ row ∈ rows.getLast?, row ≠ []) → linesOfPieces rows = rows := by
    intro rows
    fun_induction linesOfPieces rows with
    | case1 => exact fun _ _ => rfl
    | case2 final empty => exact fun _ last => absurd (List.isEmpty_iff.1 empty) (last final rfl)
    | case3 final some => exact fun _ _ => rfl
    | case4 row next rows induction =>
        intro trimmed last
        rw [List.forall_mem_cons] at trimmed
        rw [List.getLast?_cons_cons] at last
        rw [induction trimmed.2 last, linesOfPieces.dropReturn, if_neg]
        intro returns
        have inside := List.rdropWhile_eq_self_iff.1 trimmed.1
          (List.ne_nil_of_mem (List.mem_of_getLast? returns))
        rw [List.getLast?_eq_some_getLast (List.ne_nil_of_mem (List.mem_of_getLast? returns)),
          Option.some.injEq] at returns
        rw [returns] at inside
        exact inside (by decide)
  cases rows with
  | nil => rfl
  | cons row rows =>
      rw [lines, splitAt_joinWith (List.cons_ne_nil _ _) apart, pieces _ trimmed last]

/-! ## Cutting bytes -/

/-- So many bytes off the front end between two characters. -/
def DividesAt (size : Nat) (cs : List Char) : Prop :=
  ∃ front rest, cs = front ++ rest ∧ byteCount front = size

theorem dropBytes_append (front rest : List Char) :
    dropBytes (byteCount front) (front ++ rest) = rest := by
  induction front with
  | nil => cases rest <;> rfl
  | cons c front induction =>
      have positive := c.utf8Size_pos
      rcases Nat.exists_eq_succ_of_ne_zero
        (Nat.ne_of_gt (Nat.add_pos_left positive (byteCount front)))
        with ⟨size, equal⟩
      rw [byteCount_cons, equal, List.cons_append, dropBytes, ← Nat.succ_eq_add_one, ← equal,
        if_pos (Nat.le_add_right ..), Nat.add_sub_cancel_left, induction]

theorem dropBytes_of_not_dividesAt {size : Nat} {cs : List Char} (inside : ¬ DividesAt size cs) :
    dropBytes size cs = [] := by
  fun_induction dropBytes size cs with
  | case1 cs => exact absurd ⟨[], cs, rfl, rfl⟩ inside
  | case2 => rfl
  | case3 size c rest fits induction =>
      refine induction fun divides => inside ?_
      rcases divides with ⟨front, rest, rfl, equal⟩
      exact ⟨c :: front, rest, rfl, by rw [byteCount_cons, equal]; omega⟩
  | case4 => rfl

theorem dropBytes_suffix (size : Nat) (cs : List Char) : dropBytes size cs <:+ cs := by
  fun_induction dropBytes size cs with
  | case1 => exact List.suffix_rfl
  | case2 => exact List.suffix_rfl
  | case3 size c rest fits induction => exact induction.trans (List.suffix_cons c rest)
  | case4 => exact List.nil_suffix

theorem ink_dropBytes_sublist (size : Nat) (cs : List Char) :
    (ink (trimEnd (dropBytes size cs))).Sublist (ink cs) := by
  rw [ink_trimEnd]
  exact (dropBytes_suffix size cs).sublist.filter _

/-! ## Margins -/

/-- The lines that are not blank. -/
def inked (rows : List (List Char)) : List (List Char) := rows.filter fun row => !isBlankText row

theorem mem_inked {rows : List (List Char)} {row : List Char} :
    row ∈ inked rows ↔ row ∈ rows ∧ isBlankText row = false := by
  rw [inked, List.mem_filter, Bool.not_eq_true']

theorem commonMargin_eq (rows : List (List Char)) :
    commonMargin rows = ((inked rows).map marginBytes).min?.getD 0 := rfl

theorem commonMargin_le {rows : List (List Char)} {row : List Char} (member : row ∈ inked rows) :
    commonMargin rows ≤ marginBytes row := by
  have inside : marginBytes row ∈ (inked rows).map marginBytes := List.mem_map_of_mem member
  rw [commonMargin_eq]
  cases least : ((inked rows).map marginBytes).min? with
  | none =>
      rw [List.min?_eq_none_iff.1 least] at inside
      cases inside
  | some margin => exact (List.min?_eq_some_iff.1 least).2 _ inside

theorem exists_commonMargin {rows : List (List Char)} (some : inked rows ≠ []) :
    ∃ row ∈ inked rows, marginBytes row = commonMargin rows := by
  rw [commonMargin_eq]
  cases least : ((inked rows).map marginBytes).min? with
  | none => exact absurd (List.map_eq_nil_iff.1 (List.min?_eq_none_iff.1 least)) some
  | some margin => exact List.mem_map.1 (List.min?_eq_some_iff.1 least).1

theorem marginBytes_append {front rest : List Char} (blank : ∀ c ∈ front, isBlank c = true) :
    marginBytes (front ++ rest) = byteCount front + marginBytes rest := by
  rw [marginBytes, List.takeWhile_append_of_pos blank, byteCount_append, marginBytes]

theorem blank_of_byteCount_le {front rest : List Char}
    (within : byteCount front ≤ marginBytes (front ++ rest)) : ∀ c ∈ front, isBlank c = true := by
  rw [marginBytes] at within
  have margin : ∀ c ∈ (front ++ rest).takeWhile isBlank, isBlank c = true :=
    fun c => List.mem_takeWhile_imp
  rcases List.append_eq_append_iff.1
    (List.takeWhile_append_dropWhile (p := isBlank) (l := front ++ rest)) with
    ⟨more, equal, -⟩ | ⟨more, equal, -⟩
  · have size := congrArg byteCount equal
    rw [byteCount_append] at size
    rw [byteCount_eq_zero_iff.1 (show byteCount more = 0 by omega), List.append_nil] at equal
    rw [equal]
    exact margin
  · rw [equal] at margin
    exact fun c member => margin c (List.mem_append_left _ member)

theorem marginBytes_trimEnd {cs : List Char} (some : isBlankText cs = false) :
    marginBytes (trimEnd cs) = marginBytes cs := by
  have notAll : ¬ (trimEnd cs).takeWhile isBlank = trimEnd cs := by
    intro all
    rw [← isBlankText_trimEnd, isBlankText,
      List.takeWhile_eq_self_iff.1 all |> List.all_eq_true.2] at some
    cases some
  rw [marginBytes, marginBytes]
  conv_rhs => rw [← trimEnd_append_rtakeWhile cs, List.takeWhile_append]
  rw [if_neg]
  intro sameLength
  exact notAll ((List.takeWhile_prefix isBlank).eq_of_length sameLength)

/-! ## Blank ends -/

theorem dropBlankEnds_sublist (rows : List (List Char)) : (dropBlankEnds rows).Sublist rows :=
  ((List.rdropWhile_prefix isBlankText _).sublist).trans (List.dropWhile_sublist isBlankText)

theorem not_of_mem_head?_dropWhile {α : Type} {p : α → Bool} {items : List α} {item : α}
    (first : item ∈ (items.dropWhile p).head?) : p item = false := by
  have stops := List.head?_dropWhile_not p items
  rw [Option.mem_def.1 first] at stops
  exact stops

theorem not_blank_of_head?_dropBlankEnds {rows : List (List Char)} {row : List Char}
    (first : row ∈ (dropBlankEnds rows).head?) : isBlankText row = false := by
  rcases List.rdropWhile_prefix isBlankText (rows.dropWhile isBlankText) with ⟨back, equal⟩
  refine @not_of_mem_head?_dropWhile _ isBlankText rows row ?_
  rw [← equal, List.head?_append]
  exact Option.mem_def.2 (by rw [show List.head? (List.rdropWhile _ _) = some row from first]; rfl)

theorem not_blank_of_getLast?_dropBlankEnds {rows : List (List Char)} {row : List Char}
    (last : row ∈ (dropBlankEnds rows).getLast?) : isBlankText row = false := by
  rw [dropBlankEnds, List.getLast?_reverse] at last
  exact not_of_mem_head?_dropWhile last

theorem exists_blank_ends (rows : List (List Char)) : ∃ front back,
    rows = front ++ dropBlankEnds rows ++ back ∧ (∀ row ∈ front, isBlankText row = true) ∧
      ∀ row ∈ back, isBlankText row = true := by
  refine ⟨rows.takeWhile isBlankText, (rows.dropWhile isBlankText).rtakeWhile isBlankText, ?_,
    fun row => List.mem_takeWhile_imp, fun row => List.mem_rtakeWhile_imp⟩
  have back : dropBlankEnds rows ++ (rows.dropWhile isBlankText).rtakeWhile isBlankText =
      rows.dropWhile isBlankText := List.rdropWhile_append_rtakeWhile
  rw [List.append_assoc, back, List.takeWhile_append_dropWhile]

theorem inked_of_blank {rows : List (List Char)} (blank : ∀ row ∈ rows, isBlankText row = true) :
    inked rows = [] := by
  rw [inked, List.filter_eq_nil_iff]
  exact fun row member => by rw [blank row member]; decide

theorem inked_dropBlankEnds (rows : List (List Char)) :
    inked (dropBlankEnds rows) = inked rows := by
  rcases exists_blank_ends rows with ⟨front, back, equal, blankFront, blankBack⟩
  conv_rhs => rw [equal, inked, List.filter_append, List.filter_append, ← inked, ← inked, ← inked,
    inked_of_blank blankFront, inked_of_blank blankBack, List.nil_append, List.append_nil]

theorem commonMargin_dropBlankEnds (rows : List (List Char)) :
    commonMargin (dropBlankEnds rows) = commonMargin rows := by
  rw [commonMargin_eq, inked_dropBlankEnds, commonMargin_eq]

theorem flatMap_ink_inked (rows : List (List Char)) :
    (inked rows).flatMap ink = rows.flatMap ink := by
  induction rows with
  | nil => rfl
  | cons row rows induction =>
      rw [inked, List.filter_cons, List.flatMap_cons]
      split
      · rw [List.flatMap_cons, ← inked, induction]
      next blank =>
        rw [Bool.not_eq_true, Bool.not_eq_false'] at blank
        rw [← inked, induction, ink_eq_nil_iff.2 blank, List.nil_append]

/-! ## Trimmed lines -/

/-- Lines as trimming is to leave them. -/
structure Trimmed (rows : List (List Char)) : Prop where
  apart : ∀ row ∈ rows, '\n' ∉ row
  trimmed : ∀ row ∈ rows, trimEnd row = row
  first : ∀ row ∈ rows.head?, isBlankText row = false
  last : ∀ row ∈ rows.getLast?, isBlankText row = false
  flush : commonMargin rows = 0

theorem ne_nil_of_not_blank {row : List Char} (some : isBlankText row = false) : row ≠ [] := by
  rintro rfl
  cases some

theorem dropBlankEnds_eq_self {rows : List (List Char)}
    (first : ∀ row ∈ rows.head?, isBlankText row = false)
    (last : ∀ row ∈ rows.getLast?, isBlankText row = false) : dropBlankEnds rows = rows := by
  have front : rows.dropWhile isBlankText = rows := by
    cases rows with
    | nil => rfl
    | cons row rows => exact List.dropWhile_cons_of_neg (Bool.eq_false_iff.1 (first row rfl))
  have back : rows.rdropWhile isBlankText = rows := by
    refine List.rdropWhile_eq_self_iff.2 fun some => Bool.eq_false_iff.1 (last _ ?_)
    exact List.getLast?_eq_some_getLast some
  rw [dropBlankEnds, front]
  exact back

namespace Trimmed

variable {rows : List (List Char)} (isTrimmed : Trimmed rows)

include isTrimmed

theorem trimRows_eq : trimRows rows = rows := by
  rw [trimRows, dropBlankEnds_eq_self isTrimmed.first isTrimmed.last, isTrimmed.flush]
  conv_rhs => rw [← List.map_id rows]
  refine List.map_congr_left fun row member => ?_
  rw [show dropBytes 0 row = row by cases row <;> rfl, isTrimmed.trimmed row member, id]

theorem lines_eq : lines (joinWith '\n' rows) = rows :=
  lines_joinWith isTrimmed.apart isTrimmed.trimmed fun row member =>
    ne_nil_of_not_blank (isTrimmed.last row member)

theorem trimIndent_eq : trimIndent (String.ofList (joinWith '\n' rows)) =
    String.ofList (joinWith '\n' rows) := by
  rw [trimIndent, String.toList_ofList, isTrimmed.lines_eq, isTrimmed.trimRows_eq]

end Trimmed

/-! ## Taking the margin off -/

section

variable {rows : List (List Char)}

def outdented (rows : List (List Char)) (row : List Char) : List Char :=
  trimEnd (dropBytes (commonMargin rows) row)

theorem trimRows_eq_map (rows : List (List Char)) :
    trimRows rows = (dropBlankEnds rows).map (outdented rows) := by
  rw [trimRows, commonMargin_dropBlankEnds]
  rfl

/-- The common margin ends between two characters of every line that is not blank. -/
def MarginsAlign (rows : List (List Char)) : Prop :=
  ∀ row ∈ inked rows, DividesAt (commonMargin rows) row

/-- A line from which white space of so many bytes was taken off the front, and white space off
its end. -/
structure Outdented (margin : Nat) (row other : List Char) : Prop where
  parts : ∃ front rest, row = front ++ rest ∧ byteCount front = margin ∧
    (∀ c ∈ front, isBlank c = true) ∧ other = trimEnd rest
  indent : marginBytes row = margin + marginBytes other

theorem outdented_of_dividesAt {row : List Char} (member : row ∈ inked rows)
    (divides : DividesAt (commonMargin rows) row) :
    Outdented (commonMargin rows) row (outdented rows row) := by
  rcases divides with ⟨front, rest, rfl, size⟩
  have blank : ∀ c ∈ front, isBlank c = true :=
    blank_of_byteCount_le (size ▸ commonMargin_le member)
  have left : outdented rows (front ++ rest) = trimEnd rest := by
    rw [outdented, ← size, dropBytes_append]
  refine ⟨⟨front, rest, rfl, size, blank, left⟩, ?_⟩
  have some : isBlankText rest = false := by
    have whole := (mem_inked.1 member).2
    rwa [isBlankText, List.all_append, List.all_eq_true.2 blank, Bool.true_and] at whole
  rw [marginBytes_append blank, left, marginBytes_trimEnd some, size]

theorem Outdented.ink_eq {margin : Nat} {row other : List Char} (is : Outdented margin row other) :
    ink other = ink row := by
  rcases is.parts with ⟨front, rest, rfl, -, blank, rfl⟩
  rw [ink_trimEnd, ink_append, ink_of_forall blank, List.nil_append]

theorem ink_outdented_sublist (rows : List (List Char)) (row : List Char) :
    (ink (outdented rows row)).Sublist (ink row) := ink_dropBytes_sublist _ row

theorem dividesAt_of_ink {row : List Char} (some : isBlankText row = false)
    (same : ink (outdented rows row) = ink row) : DividesAt (commonMargin rows) row := by
  by_contra inside
  rw [outdented, dropBytes_of_not_dividesAt inside] at same
  rw [ink_eq_nil_iff.1 same.symm] at some
  cases some

variable (aligned : MarginsAlign rows)

include aligned

theorem MarginsAlign.ink_outdented (row : List Char) (member : row ∈ rows) :
    ink (outdented rows row) = ink row := by
  cases blank : isBlankText row with
  | true =>
      have nothing := ink_outdented_sublist rows row
      rw [ink_eq_nil_iff.2 blank] at nothing ⊢
      exact List.sublist_nil.1 nothing
  | false =>
      have isInked := mem_inked.2 ⟨member, blank⟩
      exact (outdented_of_dividesAt isInked (aligned row isInked)).ink_eq

theorem MarginsAlign.isBlankText_outdented (row : List Char) (member : row ∈ rows) :
    isBlankText (outdented rows row) = isBlankText row := by
  rw [Bool.eq_iff_iff, ← ink_eq_nil_iff, aligned.ink_outdented row member, ink_eq_nil_iff]

theorem MarginsAlign.inked_trimRows : inked (trimRows rows) =
    (inked rows).map (outdented rows) := by
  rw [trimRows_eq_map, ← inked_dropBlankEnds rows, inked, inked, List.filter_map]
  refine congrArg (List.map _) (List.filter_congr fun row member => ?_)
  rw [Function.comp, aligned.isBlankText_outdented row ((dropBlankEnds_sublist rows).subset member)]

theorem MarginsAlign.commonMargin_trimRows : commonMargin (trimRows rows) = 0 := by
  by_cases some : inked rows = []
  · rw [commonMargin_eq, aligned.inked_trimRows, some]
    rfl
  · rcases exists_commonMargin some with ⟨row, member, least⟩
    have left := (outdented_of_dividesAt member (aligned row member)).indent
    have inside : outdented rows row ∈ inked (trimRows rows) := by
      rw [aligned.inked_trimRows]
      exact List.mem_map_of_mem member
    have bound := commonMargin_le inside
    omega

theorem MarginsAlign.trimmed (apart : ∀ row ∈ rows, '\n' ∉ row) : Trimmed (trimRows rows) := by
  have inside : ∀ row ∈ dropBlankEnds rows, row ∈ rows :=
    fun row member => (dropBlankEnds_sublist rows).subset member
  refine ⟨?_, ?_, ?_, ?_, aligned.commonMargin_trimRows⟩
  · rw [trimRows_eq_map, List.forall_mem_map]
    intro row member isBreak
    refine apart row (inside row member) ?_
    exact (dropBytes_suffix _ row).subset (List.rdropWhile_prefix isBlank _ |>.subset isBreak)
  · rw [trimRows_eq_map, List.forall_mem_map]
    exact fun row _ => trimEnd_trimEnd _
  · rw [trimRows_eq_map, List.head?_map]
    intro other isFirst
    rcases Option.map_eq_some_iff.1 isFirst with ⟨row, first, rfl⟩
    rw [aligned.isBlankText_outdented row (inside row (List.mem_of_mem_head? first)),
      not_blank_of_head?_dropBlankEnds first]
  · rw [trimRows_eq_map, List.getLast?_map]
    intro other isLast
    rcases Option.map_eq_some_iff.1 isLast with ⟨row, last, rfl⟩
    rw [aligned.isBlankText_outdented row (inside row (List.mem_of_getLast? last)),
      not_blank_of_getLast?_dropBlankEnds last]

end

/-! ## Trimming a text -/

/-- What a text is to be without its margin: nothing but white space is missing, all lines that
are not blank have lost the same number of bytes off the front, neither end is a blank line, and
there is nothing left to trim. -/
structure Trims (text trimmed : String) : Prop where
  ink : ink trimmed.toList = ink text.toList
  margin : ∃ margin, List.Forall₂ (Outdented margin) (inked (lines text.toList))
    (inked (lines trimmed.toList))
  ends : trimmed ≠ "" → ∀ row, row ∈ (splitAt '\n' trimmed.toList).head? ∨
    row ∈ (splitAt '\n' trimmed.toList).getLast? → isBlankText row = false
  again : trimIndent trimmed = trimmed

theorem ink_trimIndent (text : String) : ink (trimIndent text).toList =
    (dropBlankEnds (lines text.toList)).flatMap (ink ∘ outdented (lines text.toList)) := by
  rw [trimIndent, String.toList_ofList, ink_joinWith (by decide), trimRows_eq_map, List.flatMap_map]
  rfl

theorem ink_eq_flatMap (text : String) :
    ink text.toList = (dropBlankEnds (lines text.toList)).flatMap ink := by
  rw [← flatMap_ink_lines, ← flatMap_ink_inked, ← flatMap_ink_inked (dropBlankEnds _),
    inked_dropBlankEnds]

theorem flatMap_sublist {α β : Type} (items : List α) {part whole : α → List β}
    (within : ∀ item, (part item).Sublist (whole item)) :
    (items.flatMap part).Sublist (items.flatMap whole) := by
  induction items with
  | nil => exact List.Sublist.slnil
  | cons item items induction => exact (within item).append induction

theorem eq_of_flatMap_eq {α β : Type} {items : List α} {part whole : α → List β}
    (within : ∀ item, (part item).Sublist (whole item))
    (same : items.flatMap part = items.flatMap whole) : ∀ item ∈ items, part item = whole item := by
  induction items with
  | nil => exact fun item member => absurd member List.not_mem_nil
  | cons item items induction =>
      rw [List.flatMap_cons, List.flatMap_cons] at same
      have lengths := congrArg List.length same
      rw [List.length_append, List.length_append] at lengths
      have here := (within item).length_le
      have behind := (flatMap_sublist items within).length_le
      have first : part item = whole item := (within item).eq_of_length (by omega)
      rw [first] at same
      exact List.forall_mem_cons.2 ⟨first, induction (List.append_cancel_left same)⟩

theorem marginsAlign_of_ink {text : String}
    (same : ink (trimIndent text).toList = ink text.toList) :
    MarginsAlign (lines text.toList) := by
  rw [ink_trimIndent, ink_eq_flatMap] at same
  intro row member
  rw [← inked_dropBlankEnds] at member
  rcases mem_inked.1 member with ⟨inside, some⟩
  exact dividesAt_of_ink some
    (eq_of_flatMap_eq (ink_outdented_sublist (lines text.toList)) same row inside)

theorem trims_of_marginsAlign {text : String} (aligned : MarginsAlign (lines text.toList)) :
    Trims text (trimIndent text) := by
  have isTrimmed := aligned.trimmed fun row => not_mem_of_mem_lines
  have left : (trimIndent text).toList = joinWith '\n' (trimRows (lines text.toList)) := by
    rw [trimIndent, String.toList_ofList]
  refine ⟨?_, ⟨commonMargin (lines text.toList), ?_⟩, fun some => ?_, isTrimmed.trimIndent_eq⟩
  · rw [ink_trimIndent, ink_eq_flatMap]
    refine List.flatMap_congr fun row member => ?_
    exact aligned.ink_outdented row ((dropBlankEnds_sublist _).subset member)
  · rw [left, isTrimmed.lines_eq, aligned.inked_trimRows, List.forall₂_map_right_iff,
      List.forall₂_same]
    exact fun row member => outdented_of_dividesAt member (aligned row member)
  · have rows : trimRows (lines text.toList) ≠ [] := by
      intro none
      rw [none, joinWith, String.toList_eq_nil_iff] at left
      exact some left
    rw [left, splitAt_joinWith rows isTrimmed.apart]
    rintro row (first | last)
    · exact isTrimmed.first row first
    · exact isTrimmed.last row last

/-- A text is trimmed as it should be if and only if the margin that its lines share ends
between two characters of every line that is not blank. A line in which it ends inside a
character is lost, and so is all that is said of trimming. -/
theorem trims_trimIndent_iff (text : String) :
    Trims text (trimIndent text) ↔ MarginsAlign (lines text.toList) :=
  ⟨fun trims => marginsAlign_of_ink trims.ink, trims_of_marginsAlign⟩

/-- One byte of margin in front of the first line, and a character of three bytes in front of the
second. -/
example : trimIndent " a\n\u3000b" = "a\n" := by decide

end Verbatim.Text
