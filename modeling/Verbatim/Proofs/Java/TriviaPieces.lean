import Verbatim.Java.Pattern
import Verbatim.Proofs.Java.Noting
import Verbatim.Proofs.Text.Positions

/-! What trivia is. A text is trivia if it is put together from runs of white space, from line
comments up to the end of the line and from block comments up to their first end. Cutting finds
these pieces from left to right, the patterns of the grammar find the same ones, and both stop
at the first place where no piece stands. -/

namespace Verbatim

namespace Trivia

/-! ## Pieces -/

inductive Piece where
  | space (run : List Char)
  | line (body : List Char)
  | block (body : List Char)

namespace Piece

def characters : Piece → List Char
  | space run => run
  | line body => '/' :: '/' :: body
  | block body => '/' :: '*' :: (body ++ ['*', '/'])

/-- The piece may stand in front of these characters: a line comment goes on to the end of its
line, a block comment to the first star in front of a slash. -/
def Stands : Piece → List Char → Prop
  | space run, _ => run ≠ [] ∧ ∀ c ∈ run, isSpace c = true
  | line body, rest => '\n' ∉ body ∧ ∀ c more, rest = c :: more → c = '\n'
  | block body, _ => ¬ ['*', '/'] <:+: body

def charactersOf (pieces : List Piece) : List Char := pieces.flatMap characters

/-- The pieces stand one behind the other in front of these characters. -/
def AllStand : List Piece → List Char → Prop
  | [], _ => True
  | piece :: more, rest => piece.Stands (charactersOf more ++ rest) ∧ AllStand more rest

end Piece

/-- No piece stands in front. -/
def Stuck (cs : List Char) : Prop :=
  ∀ piece rest, cs = piece.characters ++ rest → ¬ Piece.Stands piece rest

/-- A block comment begins in front and never ends. -/
def Unended (cs : List Char) : Prop :=
  ∃ body, cs = '/' :: '*' :: body ∧ ¬ ['*', '/'] <:+: body

/-- The style of a block comment with this text. -/
def Piece.blockStyle (text : List Char) : CommentStyle :=
  if "/**".toList <+: text ∧ text ≠ "/**/".toList then .doc else .block

/-- White space in front of trivia. -/
def behindSpace (run : List Char) (trivia : Trivia) : Trivia :=
  { trivia with whitespace := String.ofList run ++ trivia.whitespace }

/-- A comment in front of trivia. -/
def behindComment (style : CommentStyle) (text : List Char) (trivia : Trivia) : Trivia :=
  ⟨"", ⟨style, String.ofList text, trivia.whitespace⟩ :: trivia.comments⟩

/-- What pieces are together: every comment with the white space behind it. -/
def ofPieces : List Piece → Trivia
  | [] => .empty
  | .space run :: more => behindSpace run (ofPieces more)
  | .line body :: more => behindComment .line (Piece.line body).characters (ofPieces more)
  | .block body :: more =>
    let text := (Piece.block body).characters
    behindComment (Piece.blockStyle text) text (ofPieces more)

example : ofPieces [.block [], .block ['*'], .space ['\n'], .line ['*']] =
    ⟨"", [⟨.block, "/**/", ""⟩, ⟨.doc, "/***/", "\n"⟩, ⟨.line, "//*", ""⟩]⟩ := by decide

/-! ## Cutting them -/

theorem blockStyle_eq (text : List Char) : blockStyle text = Piece.blockStyle text := by
  rw [blockStyle, Piece.blockStyle]
  simp only [Bool.and_eq_true, List.isPrefixOf_iff_prefix, bne_iff_ne]

theorem cut_space {run : List Char} (space : ∀ c ∈ run, isSpace c = true) (rest : List Char) :
    cut (run ++ rest) = (behindSpace run (cut rest).1, (cut rest).2) := by
  rw [cut, cut, behindSpace, List.takeWhile_append_of_pos space, List.dropWhile_append_of_pos space,
    String.ofList_append]

theorem cut_comment {text rest : List Char} {style : CommentStyle}
    (found : cutComment (text ++ rest) = some (style, text, rest)) :
    cut (text ++ rest) = (behindComment style text (cut rest).1, (cut rest).2) := by
  have noSpace : ∀ c more, text ++ rest = c :: more → isSpace c = false := by
    intro c more equal
    rw [equal] at found
    by_cases slash : c = '/'
    · rw [slash]
      rfl
    · rw [Java.cutComment_of_noSlash fun c' more' same => (List.cons.inj same).1 ▸ slash] at found
      cases found
  have run : ([] ++ (text ++ rest)).takeWhile isSpace = [] :=
    Text.takeWhile_append_eq_iff.2 ⟨fun _ absent => absurd absent List.not_mem_nil, noSpace⟩
  have left := Text.dropWhile_append_of_takeWhile run
  rw [List.nil_append] at run left
  rw [cut, run, left, Java.cutComments_of_some found, cut]
  rfl

/-! ## Where a piece stands -/

theorem stands_space {c : Char} (space : isSpace c = true) (more rest : List Char) :
    (Piece.space ((c :: more).takeWhile isSpace)).Stands rest := by
  have split := List.takeWhile_append_dropWhile (p := isSpace) (l := c :: more)
  refine ⟨?_, (Text.takeWhile_append_eq_iff.1 (congrArg (List.takeWhile isSpace) split)).1⟩
  rw [List.takeWhile_cons, if_pos space]
  exact List.cons_ne_nil _ _

theorem exists_block_of_cutBlock {cs body rest : List Char}
    (cut : cutBlock cs = some (body, rest)) :
    ∃ inner, body = inner ++ ['*', '/'] ∧ ¬ ['*', '/'] <:+: inner := by
  induction cs using cutBlock.induct generalizing body rest with
  | case1 => cases cut
  | case2 more =>
      cases cut
      exact ⟨[], rfl, by simp⟩
  | case3 c more notEnd induction =>
      rw [cutBlock] at cut
      · rcases Option.map_eq_some_iff.1 cut with ⟨⟨inside, left⟩, found, pair⟩
        cases pair
        rcases induction found with ⟨inner, rfl, unended⟩
        refine ⟨c :: inner, rfl, ?_⟩
        rw [List.infix_cons_iff, not_or]
        refine ⟨fun starts => ?_, unended⟩
        rcases starts with ⟨behind, equal⟩
        rcases List.cons.inj equal with ⟨isStar, slash⟩
        have whole := cutBlock_append found
        rw [← slash] at whole
        exact notEnd _ isStar.symm whole
      · exact notEnd

theorem cutComment_line {body rest : List Char} (stands : (Piece.line body).Stands rest) :
    cutComment ((Piece.line body).characters ++ rest) =
      some (.line, (Piece.line body).characters, rest) := by
  have run : (body ++ rest).takeWhile (fun c => decide (c ≠ '\n')) = body :=
    Text.takeWhile_append_eq_iff.2
      ⟨fun c member => decide_eq_true fun newline => stands.1 (newline ▸ member),
        fun c more equal => by simp [stands.2 c more equal]⟩
  rw [Piece.characters, List.cons_append, List.cons_append, cutComment, run,
    Text.dropWhile_append_of_takeWhile run]

theorem cutComment_block {body rest : List Char} (stands : (Piece.block body).Stands rest) :
    cutComment ((Piece.block body).characters ++ rest) =
      some (Piece.blockStyle (Piece.block body).characters,
        (Piece.block body).characters, rest) := by
  have unended : cutBlock body = none := Java.cutBlock_eq_none_iff.2 stands
  have ended := Java.cutBlock_of_unended unended rest
  rw [← blockStyle_eq, Piece.characters, List.cons_append, List.cons_append, List.append_assoc,
    cutComment, show ['*', '/'] ++ rest = '*' :: '/' :: rest from rfl, ended]
  rfl

theorem exists_piece_of_cutComment {cs text rest : List Char} {style : CommentStyle}
    (found : cutComment cs = some (style, text, rest)) :
    (∃ body, text = (Piece.line body).characters ∧ (Piece.line body).Stands rest) ∨
      ∃ body, text = (Piece.block body).characters ∧ (Piece.block body).Stands rest := by
  have whole := cutComment_append found
  fun_cases cutComment cs with
  | case1 more =>
      simp only [cutComment, Option.some.injEq, Prod.mk.injEq] at found
      rcases found with ⟨rfl, rfl, rfl⟩
      have split := List.takeWhile_append_dropWhile (p := fun c => decide (c ≠ '\n')) (l := more)
      have stops := Text.takeWhile_append_eq_iff.1
        (congrArg (List.takeWhile fun c => decide (c ≠ '\n')) split)
      refine .inl ⟨_, rfl, fun newline => ?_, fun c rest equal => ?_⟩
      · exact of_decide_eq_true (stops.1 _ newline) rfl
      · simpa using stops.2 c rest equal
  | case2 more =>
      rw [cutComment] at found
      rcases Option.map_eq_some_iff.1 found with ⟨⟨body, left⟩, ended, triple⟩
      cases triple
      rcases exists_block_of_cutBlock ended with ⟨inner, rfl, unended⟩
      exact .inr ⟨inner, rfl, unended⟩
  | case3 cs notLine notBlock =>
      rw [cutComment] at found
      · cases found
      · exact notLine
      · exact notBlock

theorem stuck_iff {cs : List Char} : Stuck cs ↔
    (∀ c more, cs = c :: more → isSpace c = false) ∧ cutComment cs = none := by
  constructor
  · intro stuck
    constructor
    · rintro c more rfl
      rw [← Bool.not_eq_true]
      intro space
      exact stuck _ _ (List.takeWhile_append_dropWhile (p := isSpace)).symm
        (stands_space space more _)
    · cases found : cutComment cs with
      | none => rfl
      | some triple =>
          rcases triple with ⟨style, text, rest⟩
          have whole := cutComment_append found
          rcases exists_piece_of_cutComment found with ⟨body, rfl, stands⟩ | ⟨body, rfl, stands⟩
          · exact absurd stands (stuck _ rest whole)
          · exact absurd stands (stuck _ rest whole)
  · rintro ⟨noSpace, noComment⟩ piece rest rfl stands
    cases piece with
    | space run =>
        rcases List.exists_cons_of_ne_nil stands.1 with ⟨c, more, rfl⟩
        exact absurd (stands.2 c List.mem_cons_self) (Bool.eq_false_iff.1 (noSpace c _ rfl))
    | line body => cases noComment.symm.trans (cutComment_line stands)
    | block body => cases noComment.symm.trans (cutComment_block stands)

theorem cut_stuck {cs : List Char} (stuck : Stuck cs) : cut cs = (.empty, cs) := by
  rcases stuck_iff.1 stuck with ⟨noSpace, noComment⟩
  exact @Java.cutTrivia_spaces "" (fun _ absent => absurd absent List.not_mem_nil)
    cs noSpace noComment

theorem cut_pieces {pieces : List Piece} {rest : List Char} (stand : Piece.AllStand pieces rest)
    (stuck : Stuck rest) :
    cut (Piece.charactersOf pieces ++ rest) = (ofPieces pieces, rest) := by
  induction pieces with
  | nil => exact cut_stuck stuck
  | cons piece more induction =>
      rcases stand with ⟨here, behind⟩
      have left := induction behind
      rw [Piece.charactersOf, List.flatMap_cons, List.append_assoc, ← Piece.charactersOf]
      cases piece with
      | space run => rw [Piece.characters, cut_space here.2, left, ofPieces]
      | line body => rw [cut_comment (cutComment_line here), left, ofPieces]
      | block body => rw [cut_comment (cutComment_block here), left, ofPieces]

theorem Piece.AllStand.alone {pieces : List Piece} {rest : List Char}
    (stand : Piece.AllStand pieces rest) : Piece.AllStand pieces [] := by
  induction pieces with
  | nil => trivial
  | cons piece more induction =>
      rcases stand with ⟨here, behind⟩
      refine ⟨?_, induction behind⟩
      rw [List.append_nil]
      cases piece with
      | space run => exact here
      | line body =>
          exact ⟨here.1, fun c left equal =>
            here.2 c (left ++ rest) (by rw [equal, List.cons_append])⟩
      | block body => exact here

end Trivia

/-! ## Patterns -/

open Trivia (Piece Stuck)

namespace Java

theorem Pattern.Fits.unique {pattern : Pattern} {cs : List Char}
    {result other : Option (List Char × List Char)} (fits : Fits pattern cs result)
    (otherFits : Fits pattern cs other) : result = other := by
  induction fits generalizing other with
  | character accepted =>
      cases otherFits with
      | character => rfl
      | characterNone refused => cases accepted.symm.trans (refused _ _ rfl)
  | characterNone refused =>
      cases otherFits with
      | character accepted => cases accepted.symm.trans (refused _ _ rfl)
      | characterNone => rfl
  | seq _ _ first second =>
      cases otherFits with
      | seq otherFirst otherSecond =>
          cases first otherFirst
          cases second otherSecond
          rfl
      | seqFirstNone otherFirst => cases first otherFirst
      | seqSecondNone otherFirst otherSecond =>
          cases first otherFirst
          cases second otherSecond
  | seqFirstNone _ first =>
      cases otherFits with
      | seq otherFirst _ => cases first otherFirst
      | seqFirstNone _ => rfl
      | seqSecondNone _ _ => rfl
  | seqSecondNone _ _ first second =>
      cases otherFits with
      | seq otherFirst otherSecond =>
          cases first otherFirst
          cases second otherSecond
      | seqFirstNone _ => rfl
      | seqSecondNone _ _ => rfl
  | choiceFirst _ first =>
      cases otherFits with
      | choiceFirst otherFirst => exact first otherFirst
      | choiceSecond otherFirst _ => cases first otherFirst
  | choiceSecond _ _ first second =>
      cases otherFits with
      | choiceFirst otherFirst => cases first otherFirst
      | choiceSecond _ otherSecond => exact second otherSecond
  | manyEnd _ part =>
      cases otherFits with
      | manyEnd _ => rfl
      | manyMore otherPart _ => cases part otherPart
  | manyMore _ _ part more =>
      cases otherFits with
      | manyEnd otherPart => cases part otherPart
      | manyMore otherPart otherMore =>
          cases part otherPart
          cases more otherMore
          rfl
  | notAhead _ part =>
      cases otherFits with
      | notAhead _ => rfl
      | notAheadNone otherPart => cases part otherPart
  | notAheadNone _ part =>
      cases otherFits with
      | notAhead otherPart => cases part otherPart
      | notAheadNone _ => rfl

namespace Pattern

theorem fits_many_character (accepts : Char → Bool) (cs : List Char) :
    Fits (.many (.character accepts)) cs (some (cs.takeWhile accepts, cs.dropWhile accepts)) := by
  induction cs with
  | nil => exact .manyEnd (.characterNone nofun)
  | cons c rest induction =>
      cases accepted : accepts c with
      | true =>
          rw [List.takeWhile_cons_of_pos accepted, List.dropWhile_cons_of_pos accepted]
          exact .manyMore (.character accepted) induction
      | false =>
          rw [List.takeWhile_cons_of_neg (Bool.eq_false_iff.1 accepted),
            List.dropWhile_cons_of_neg (Bool.eq_false_iff.1 accepted)]
          exact .manyEnd (.characterNone fun c' rest' equal => (List.cons.inj equal).1 ▸ accepted)

theorem fits_pair (first second : Char) (rest : List Char) :
    Fits (.pair first second) (first :: second :: rest) (some ([first, second], rest)) :=
  .seq (.character (decide_eq_true rfl)) (.character (decide_eq_true rfl))

theorem fits_pair_none {first second : Char} {cs : List Char}
    (other : ∀ rest, cs ≠ first :: second :: rest) : Fits (.pair first second) cs none := by
  rcases cs with _ | ⟨c, cs⟩
  · exact .seqFirstNone (.characterNone nofun)
  · by_cases isFirst : c = first
    · subst isFirst
      refine .seqSecondNone (.character (decide_eq_true rfl))
        (.characterNone fun c' rest equal => ?_)
      refine decide_eq_false fun isSecond => other rest ?_
      rw [equal, isSecond]
    · exact .seqFirstNone (.characterNone fun c' rest equal =>
        (List.cons.inj equal).1 ▸ decide_eq_false isFirst)

end Pattern

open Pattern

theorem mem_spaceCharacters (c : Char) : decide (c ∈ spaceCharacters) = Trivia.isSpace c := by
  rw [Bool.eq_iff_iff]
  simp [spaceCharacters, Trivia.isSpace, or_assoc]

theorem fits_spacePattern {c : Char} {rest : List Char} (space : Trivia.isSpace c = true) :
    Pattern.Fits spacePattern (c :: rest)
      (some ((c :: rest).takeWhile Trivia.isSpace, (c :: rest).dropWhile Trivia.isSpace)) := by
  have same : (fun c => decide (c ∈ spaceCharacters)) = Trivia.isSpace := funext mem_spaceCharacters
  rw [List.takeWhile_cons_of_pos space, List.dropWhile_cons_of_pos space, spacePattern, same]
  exact .seq (.character space) (fits_many_character Trivia.isSpace rest)

theorem fits_spacePattern_none {cs : List Char}
    (noSpace : ∀ c more, cs = c :: more → Trivia.isSpace c = false) :
    Pattern.Fits spacePattern cs none :=
  .seqFirstNone (.characterNone fun c more equal =>
    (mem_spaceCharacters c).trans (noSpace c more equal))

theorem fits_ended (cs : List Char) :
    Pattern.Fits
      (.seq (.many (.seq (.notAhead (.pair '*' '/')) (.character fun _ => true))) (.pair '*' '/'))
      cs (Trivia.cutBlock cs) := by
  induction cs using Trivia.cutBlock.induct with
  | case1 =>
      have noEnd : Pattern.Fits (.pair '*' '/') [] none :=
        fits_pair_none fun _ equal => List.cons_ne_nil _ _ equal.symm
      exact .seqSecondNone (.manyEnd (.seqSecondNone (.notAhead noEnd)
        (.characterNone fun _ _ equal => absurd equal.symm (List.cons_ne_nil _ _)))) noEnd
  | case2 more =>
      exact .seq (.manyEnd (.seqFirstNone (.notAheadNone (fits_pair '*' '/' more))))
        (fits_pair '*' '/' more)
  | case3 c more notEnd induction =>
      have here : Pattern.Fits (.seq (.notAhead (.pair '*' '/')) (.character fun _ => true))
          (c :: more)
          (some ([c], more)) :=
        .seq (.notAhead (fits_pair_none fun rest equal => notEnd rest (List.cons.inj equal).1
          (List.cons.inj equal).2)) (.character rfl)
      rw [Trivia.cutBlock]
      · cases found : Trivia.cutBlock more with
        | none =>
            rw [found] at induction
            cases induction with
            | seqFirstNone never => cases never
            | seqSecondNone inside missing => exact .seqSecondNone (.manyMore here inside) missing
        | some pair =>
            rw [found] at induction
            cases induction with
            | seq inside ends => exact .seq (.manyMore here inside) ends
      · exact notEnd

theorem fits_comment (cs : List Char) : Pattern.Fits (.choice linePattern blockPattern) cs
    ((Trivia.cutComment cs).map Prod.snd) := by
  fun_cases Trivia.cutComment cs with
  | case1 more =>
      exact .choiceFirst (.seq (fits_pair '/' '/' more) (fits_many_character _ more))
  | case2 more =>
      have noLine : Pattern.Fits (.pair '/' '/') ('/' :: '*' :: more) none :=
        fits_pair_none fun _ equal => absurd (List.cons.inj (List.cons.inj equal).2).1 (by decide)
      refine .choiceSecond (.seqFirstNone noLine) ?_
      have ended := fits_ended more
      cases found : Trivia.cutBlock more with
      | none =>
          rw [found] at ended
          exact .seqSecondNone (fits_pair '/' '*' more) ended
      | some pair =>
          rw [found] at ended
          exact .seq (fits_pair '/' '*' more) ended
  | case3 cs notLine notBlock =>
      exact .choiceSecond (.seqFirstNone (fits_pair_none notLine))
        (.seqFirstNone (fits_pair_none notBlock))

theorem fits_piecePattern (cs : List Char) :
    (Stuck cs ∧ Pattern.Fits piecePattern cs none) ∨
      ∃ piece rest, cs = Piece.characters piece ++ rest ∧ piece.Stands rest ∧
        Pattern.Fits piecePattern cs (some (piece.characters, rest)) := by
  by_cases space : ∃ c more, cs = c :: more ∧ Trivia.isSpace c = true
  · rcases space with ⟨c, more, rfl, space⟩
    exact .inr ⟨_, _, (List.takeWhile_append_dropWhile (p := Trivia.isSpace)).symm,
      Trivia.stands_space space more _, .choiceFirst (fits_spacePattern space)⟩
  · have noSpace : ∀ c more, cs = c :: more → Trivia.isSpace c = false := fun c more equal =>
      Bool.eq_false_iff.2 fun isSpace => space ⟨c, more, equal, isSpace⟩
    have noRun := fits_spacePattern_none noSpace
    have comment := fits_comment cs
    cases found : Trivia.cutComment cs with
    | none =>
        rw [found] at comment
        exact .inl ⟨Trivia.stuck_iff.2 ⟨noSpace, found⟩, .choiceSecond noRun comment⟩
    | some triple =>
        rcases triple with ⟨style, text, rest⟩
        rw [found] at comment
        have whole := Trivia.cutComment_append found
        rcases Trivia.exists_piece_of_cutComment found with
          ⟨body, rfl, stands⟩ | ⟨body, rfl, stands⟩
        · exact .inr ⟨_, rest, whole, stands, .choiceSecond noRun comment⟩
        · exact .inr ⟨_, rest, whole, stands, .choiceSecond noRun comment⟩

theorem ne_nil_of_stands {piece : Piece} {rest : List Char} (stands : piece.Stands rest) :
    piece.characters ≠ [] := by
  cases piece with
  | space run => exact stands.1
  | line body => exact List.cons_ne_nil _ _
  | block body => exact List.cons_ne_nil _ _

theorem exists_pieces (cs : List Char) : ∃ pieces rest, cs = Piece.charactersOf pieces ++ rest ∧
    Piece.AllStand pieces rest ∧ Stuck rest ∧
      Pattern.Fits triviaPattern cs (some (Piece.charactersOf pieces, rest)) := by
  generalize size : cs.length = length
  induction length using Nat.strongRecOn generalizing cs with
  | ind length induction =>
      rcases fits_piecePattern cs with ⟨stuck, none⟩ | ⟨piece, rest, rfl, stands, fits⟩
      · exact ⟨[], cs, rfl, trivial, stuck, .manyEnd none⟩
      · have shorter : rest.length < length := by
          have := List.length_pos_iff.2 (ne_nil_of_stands stands)
          rw [List.length_append] at size
          omega
        rcases induction _ shorter rest rfl with ⟨pieces, left, rfl, behind, stuck, more⟩
        refine ⟨piece :: pieces, left, ?_, ⟨stands, behind⟩, stuck, ?_⟩
        · rw [Piece.charactersOf, Piece.charactersOf, List.flatMap_cons, List.append_assoc]
        · exact .manyMore fits more

end Java

namespace Trivia

theorem parse_pieces {pieces : List Piece} {rest : List Char} {text : String}
    (equal : text.toList = Piece.charactersOf pieces ++ rest) (stand : Piece.AllStand pieces rest)
    (stuck : Stuck rest) : parse text =
      if rest = [] then .ok (ofPieces pieces)
      else .error ⟨(String.ofList (Piece.charactersOf pieces)).utf8ByteSize, opensBlock rest⟩ := by
  have size : text.utf8ByteSize =
      (String.ofList (Piece.charactersOf pieces)).utf8ByteSize + Text.byteCount rest := by
    rw [← String.ofList_toList (s := text), equal, String.ofList_append, String.utf8ByteSize_append,
      Text.byteCount_eq]
  rw [parse, equal, cut_pieces stand stuck, size]
  simp only [List.isEmpty_iff, Nat.add_sub_cancel]

theorem parse_eq_ok_iff {text : String} {trivia : Trivia} :
    parse text = .ok trivia ↔ cut text.toList = (trivia, []) := by
  rw [parse]
  rcases cut text.toList with ⟨found, rest⟩
  cases rest <;> simp

theorem parse_withWhitespace {text whitespace : String} {trivia : Trivia}
    (accepted : parse text = .ok trivia) (space : ∀ c ∈ whitespace.toList, isSpace c = true) :
    parse (trivia.withWhitespace whitespace).text = .ok (trivia.withWhitespace whitespace) := by
  rw [parse_eq_ok_iff] at accepted ⊢
  have whole := Java.cutTrivia_append text.toList
  rw [accepted] at whole
  have again := @Java.cutTrivia_respaced trivia (trivia.withWhitespace whitespace) rfl space []
    (by rw [whole, accepted])
  rwa [List.append_nil] at again

theorem opensBlock_iff {cs : List Char} (stuck : Stuck cs) : opensBlock cs = true ↔ Unended cs := by
  rw [opensBlock, List.isPrefixOf_iff_prefix, Unended]
  constructor
  · rintro ⟨body, rfl⟩
    refine ⟨body, rfl, ?_⟩
    have missing := (stuck_iff.1 stuck).2
    rwa [List.cons_append, List.cons_append, List.nil_append, cutComment, Option.map_eq_none_iff,
      Java.cutBlock_eq_none_iff] at missing
  · rintro ⟨body, rfl, -⟩
    exact ⟨body, rfl⟩

theorem stuck_nil : Stuck [] := stuck_iff.2 ⟨nofun, rfl⟩

theorem parse_eq_ok_iff_pieces {text : String} {trivia : Trivia} : parse text = .ok trivia ↔
    ∃ pieces, text.toList = Piece.charactersOf pieces ∧ Piece.AllStand pieces [] ∧
      trivia = ofPieces pieces := by
  constructor
  · intro accepted
    rcases Java.exists_pieces text.toList with ⟨pieces, rest, equal, stand, stuck, -⟩
    rw [parse_pieces equal stand stuck] at accepted
    split at accepted
    next none =>
      cases accepted
      rw [none, List.append_nil] at equal
      exact ⟨pieces, equal, stand.alone, rfl⟩
    next => cases accepted
  · rintro ⟨pieces, equal, stand, rfl⟩
    rw [parse_pieces (equal.trans (List.append_nil _).symm) stand stuck_nil, if_pos rfl]

theorem parse_eq_error_iff {text : String} {error : TriviaError} : parse text = .error error ↔
    ∃ pieces rest, text.toList = Piece.charactersOf pieces ++ rest ∧ Piece.AllStand pieces rest ∧
      rest ≠ [] ∧ Stuck rest ∧
      error.offset = (String.ofList (Piece.charactersOf pieces)).utf8ByteSize ∧
      (error.unterminated = true ↔ Unended rest) := by
  constructor
  · intro refused
    rcases Java.exists_pieces text.toList with ⟨pieces, rest, equal, stand, stuck, -⟩
    rw [parse_pieces equal stand stuck] at refused
    split at refused
    next => cases refused
    next some =>
      cases refused
      exact ⟨pieces, rest, equal, stand, some, stuck, rfl, opensBlock_iff stuck⟩
  · rintro ⟨pieces, rest, equal, stand, some, stuck, offset, unterminated⟩
    rw [← opensBlock_iff stuck, ← Bool.eq_iff_iff] at unterminated
    rw [parse_pieces equal stand stuck, if_neg some, ← offset, ← unterminated]

theorem text_of_parse {text : String} {trivia : Trivia} (accepted : parse text = .ok trivia) :
    trivia.text = text := by
  have whole := Java.cutTrivia_append text.toList
  rw [parse_eq_ok_iff.1 accepted, List.append_nil] at whole
  exact String.toList_inj.1 whole

theorem exists_taken (cs : List Char) : ∃ taken,
    (∀ result, Java.triviaPattern.Fits cs result ↔ result = some (taken, (cut cs).2)) ∧
      parse (String.ofList taken) = .ok (cut cs).1 := by
  rcases Java.exists_pieces cs with ⟨pieces, rest, equal, stand, stuck, fits⟩
  have found : cut cs = (ofPieces pieces, rest) := equal ▸ cut_pieces stand stuck
  rw [found]
  refine ⟨Piece.charactersOf pieces, fun result => ?_, ?_⟩
  · exact ⟨fun other => other.unique fits, fun same => same ▸ fits⟩
  · exact parse_pieces (by rw [String.toList_ofList, List.append_nil]) stand.alone stuck_nil

theorem exists_parse_iff_fits (text : String) : (∃ trivia, parse text = .ok trivia) ↔
    Java.triviaPattern.Fits text.toList (some (text.toList, [])) := by
  rcases exists_taken text.toList with ⟨taken, fits, accepted⟩
  rw [fits, Option.some.injEq, Prod.mk.injEq]
  constructor
  · rintro ⟨trivia, whole⟩
    have found := parse_eq_ok_iff.1 whole
    rw [found] at accepted ⊢
    have spelled := (text_of_parse accepted).symm.trans (text_of_parse whole)
    exact ⟨by rw [← spelled, String.toList_ofList], rfl⟩
  · rintro ⟨rfl, -⟩
    rw [String.ofList_toList] at accepted
    exact ⟨_, accepted⟩

/-- A text is read as trivia if it consists of pieces, and as the trivia that they are together.
Then its parts spell it again, also behind other white space. If it is not read, the fault is
where the pieces in front of it end. And the text is read if the pattern of the grammar takes
all of it; what the pattern takes of any text is read. -/
theorem parse_codec (text : String) :
    (∀ trivia, parse text = .ok trivia ↔ ∃ pieces, text.toList = Piece.charactersOf pieces ∧
      Piece.AllStand pieces [] ∧ trivia = ofPieces pieces) ∧
    (∀ trivia, parse text = .ok trivia → trivia.text = text ∧ trivia.byteCount = text.utf8ByteSize ∧
      ∀ whitespace, (∀ c ∈ whitespace.toList, isSpace c = true) →
        parse (trivia.withWhitespace whitespace).text = .ok (trivia.withWhitespace whitespace)) ∧
    (∀ error, parse text = .error error ↔ ∃ pieces rest,
      text.toList = Piece.charactersOf pieces ++ rest ∧ Piece.AllStand pieces rest ∧
      rest ≠ [] ∧ Stuck rest ∧
      error.offset = (String.ofList (Piece.charactersOf pieces)).utf8ByteSize ∧
      (error.unterminated = true ↔ Unended rest)) ∧
    ((∃ trivia, parse text = .ok trivia) ↔
      Java.triviaPattern.Fits text.toList (some (text.toList, []))) ∧
    ∃ taken, (∀ result, Java.triviaPattern.Fits text.toList result ↔
        result = some (taken, (cut text.toList).2)) ∧
      parse (String.ofList taken) = .ok (cut text.toList).1 := by
  refine ⟨fun trivia => parse_eq_ok_iff_pieces, fun trivia accepted => ?_,
    fun error => parse_eq_error_iff, exists_parse_iff_fits text, exists_taken text.toList⟩
  have spelled := text_of_parse accepted
  exact ⟨spelled, by rw [byteCount_eq, spelled], fun whitespace => parse_withWhitespace accepted⟩

end Trivia

end Verbatim
