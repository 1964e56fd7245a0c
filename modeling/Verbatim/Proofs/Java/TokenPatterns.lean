import Mathlib.Logic.ExistsUnique
import Verbatim.Proofs.Java.Tokens
import Verbatim.Proofs.Java.TriviaPieces

/-! How tokens are spelled. The patterns of the grammar take what is cut, every pattern does one
thing with every text, and no part of a pattern is repeated without taking a character. -/

namespace Verbatim.Java

namespace Pattern

/-- All parts that are repeated. The first round of what is taken at least once is of such a part,
too. -/
def repeated : Pattern → List Pattern
  | .character _ => []
  | .seq first second | .choice first second => first.repeated ++ second.repeated
  | .many part => part :: part.repeated
  | .notAhead part => part.repeated

/-- The pattern may fit without taking a character. -/
def mayTakeNothing : Pattern → Bool
  | .character _ => false
  | .seq first second => first.mayTakeNothing && second.mayTakeNothing
  | .choice first second => first.mayTakeNothing || second.mayTakeNothing
  | .many _ | .notAhead _ => true

theorem Fits.taken {pattern : Pattern} {cs front rest : List Char}
    {result : Option (List Char × List Char)} (fits : Fits pattern cs result)
    (found : result = some (front, rest)) :
    cs = front ++ rest ∧ (pattern.mayTakeNothing = false → front ≠ []) := by
  induction fits generalizing front rest with
  | character => cases found; exact ⟨rfl, fun _ => List.cons_ne_nil _ _⟩
  | seq _ _ first second =>
      cases found
      rcases first rfl with ⟨rfl, firstTakes⟩
      rcases second rfl with ⟨rfl, secondTakes⟩
      refine ⟨(List.append_assoc ..).symm, fun takes nothing => ?_⟩
      rw [List.append_eq_nil_iff] at nothing
      rw [mayTakeNothing, Bool.and_eq_false_iff] at takes
      rcases takes with takes | takes
      · exact firstTakes takes nothing.1
      · exact secondTakes takes nothing.2
  | choiceFirst _ first =>
      rcases first found with ⟨equal, firstTakes⟩
      refine ⟨equal, fun takes => firstTakes ?_⟩
      rw [mayTakeNothing, Bool.or_eq_false_iff] at takes
      exact takes.1
  | choiceSecond _ _ _ second =>
      rcases second found with ⟨equal, secondTakes⟩
      refine ⟨equal, fun takes => secondTakes ?_⟩
      rw [mayTakeNothing, Bool.or_eq_false_iff] at takes
      exact takes.2
  | manyEnd => cases found; exact ⟨rfl, nofun⟩
  | manyMore _ _ part more =>
      cases found
      rcases part rfl with ⟨rfl, -⟩
      rcases more rfl with ⟨rfl, -⟩
      exact ⟨(List.append_assoc ..).symm, nofun⟩
  | notAhead => cases found; exact ⟨rfl, nofun⟩
  | characterNone | seqFirstNone | seqSecondNone | notAheadNone => cases found

theorem Fits.round {part ends : Pattern} {cs front rest : List Char}
    {result : Option (List Char × List Char)} (here : Fits part cs (some (front, rest)))
    (behind : Fits (.seq (.many part) ends) rest result) :
    Fits (.seq (.many part) ends) cs (result.map fun (body, left) => (front ++ body, left)) := by
  cases behind with
  | seq inside ended =>
      simp only [Option.map_some]
      rw [← List.append_assoc]
      exact .seq (.manyMore here inside) ended
  | seqFirstNone never => cases never
  | seqSecondNone inside missing => exact .seqSecondNone (.manyMore here inside) missing

theorem Fits.orNone {first second : Pattern} {cs : List Char}
    {result : Option (List Char × List Char)} (fits : Fits first cs result)
    (otherwise : Fits second cs none) : Fits (.choice first second) cs result := by
  cases result with
  | none => exact .choiceSecond fits otherwise
  | some found => exact .choiceFirst fits

theorem fits_character_nil (accepts : Char → Bool) : Fits (.character accepts) [] none :=
  .characterNone nofun

theorem fits_character_none {accepts : Char → Bool} {c : Char} (refused : accepts c = false)
    (rest : List Char) : Fits (.character accepts) (c :: rest) none :=
  .characterNone fun _ _ equal => (List.cons.inj equal).1 ▸ refused

theorem fits_start_none {starts : Char → Bool} {behind : Pattern} {c : Char}
    (refused : starts c = false) (rest : List Char) :
    Fits (.seq (.character starts) behind) (c :: rest) none :=
  .seqFirstNone (fits_character_none refused rest)

theorem fits_any (c : Char) (rest : List Char) : Fits .any (c :: rest) (some ([c], rest)) :=
  .character rfl

theorem fits_exactly (c : Char) (rest : List Char) :
    Fits (.character (· = c)) (c :: rest) (some ([c], rest)) := .character (decide_eq_true rfl)

theorem fits_triple (c : Char) (rest : List Char) :
    Fits (.triple c) (c :: c :: c :: rest) (some ([c, c, c], rest)) :=
  .seq (fits_exactly c _) (fits_pair c c rest)

theorem fits_triple_none {c : Char} {cs : List Char} (other : ∀ rest, cs ≠ c :: c :: c :: rest) :
    Fits (.triple c) cs none := by
  rcases cs with _ | ⟨first, cs⟩
  · exact .seqFirstNone (fits_character_nil _)
  · by_cases same : first = c
    · subst same
      exact .seqSecondNone (fits_exactly first cs) (fits_pair_none fun rest equal =>
        other rest (congrArg _ equal))
    · exact fits_start_none (decide_eq_false same) cs

theorem fits_run (starts goesOn : Char → Bool) (c : Char) (rest : List Char) :
    Fits (.seq (.character starts) (.many (.character goesOn))) (c :: rest)
      (if starts c then some (c :: rest.takeWhile goesOn, rest.dropWhile goesOn) else none) := by
  split
  next isStart => exact .seq (.character isStart) (fits_many_character goesOn rest)
  next other => exact fits_start_none (Bool.eq_false_iff.2 other) rest

end Pattern

open Pattern

/-! ## Words and punctuation -/

theorem fits_wordPattern (cs : List Char) : Pattern.Fits wordPattern cs (cutWord cs) := by
  cases cs with
  | nil => exact .seqFirstNone (fits_character_nil _)
  | cons c rest => exact fits_run isWordStart isWordPart c rest

theorem fits_punctuationPattern (cs : List Char) :
    Pattern.Fits punctuationPattern cs (cutPunctuation cs) := by
  fun_cases cutPunctuation cs with
  | case1 rest => exact .choiceFirst (fits_triple '.' rest)
  | case2 rest =>
      exact .choiceSecond (fits_triple_none (by simp)) (.choiceFirst (fits_pair ':' ':' rest))
  | case3 rest =>
      exact .choiceSecond (fits_triple_none (by simp)) (.choiceSecond (fits_pair_none (by simp))
        (.choiceFirst (fits_pair '-' '>' rest)))
  | case4 c rest notEllipsis notReference notArrow isMark =>
      exact .choiceSecond (fits_triple_none (by simpa using notEllipsis))
        (.choiceSecond (fits_pair_none (by simpa using notReference))
          (.choiceSecond (fits_pair_none (by simpa using notArrow)) (.character isMark)))
  | case5 c rest notEllipsis notReference notArrow noMark =>
      exact .choiceSecond (fits_triple_none (by simpa using notEllipsis))
        (.choiceSecond (fits_pair_none (by simpa using notReference))
          (.choiceSecond (fits_pair_none (by simpa using notArrow))
            (fits_character_none (Bool.eq_false_iff.2 noMark) rest)))
  | case6 =>
      exact .choiceSecond (fits_triple_none (by simp)) (.choiceSecond (fits_pair_none (by simp))
        (.choiceSecond (fits_pair_none (by simp)) (fits_character_nil _)))

/-! ## Literals -/

theorem fits_escapePattern_none {cs : List Char} (other : ∀ c rest, cs ≠ '\\' :: c :: rest) :
    Pattern.Fits escapePattern cs none := by
  rcases cs with _ | ⟨first, _ | ⟨c, rest⟩⟩
  · exact .seqFirstNone (fits_character_nil _)
  · by_cases same : first = '\\'
    · subst same
      exact .seqSecondNone (fits_exactly _ _) (fits_character_nil _)
    · exact fits_start_none (decide_eq_false same) _
  · refine fits_start_none (decide_eq_false fun same => ?_) _
    exact other c rest (congrArg (· :: c :: rest) same)

theorem fits_escapePattern (c : Char) (rest : List Char) :
    Pattern.Fits escapePattern ('\\' :: c :: rest) (some (['\\', c], rest)) :=
  .seq (fits_exactly _ _) (fits_any c rest)

theorem fits_textBlock (cs : List Char) :
    Pattern.Fits
      (.seq (.many (.seq (.notAhead (.triple '"')) (.choice escapePattern .any))) (.triple '"')) cs
      (cutTextBlock cs) := by
  induction cs using cutTextBlock.induct with
  | case1 =>
      have noQuotes : Pattern.Fits (.triple '"') [] none := fits_triple_none (by simp)
      refine .seqSecondNone (.manyEnd (.seqSecondNone (.notAhead noQuotes) ?_)) noQuotes
      exact .choiceSecond (fits_escapePattern_none (by simp)) (fits_character_nil _)
  | case2 rest =>
      exact .seq (.manyEnd (.seqFirstNone (.notAheadNone (fits_triple '"' rest))))
        (fits_triple '"' rest)
  | case3 c rest induction =>
      exact .round (.seq (.notAhead (fits_triple_none (by simp)))
        (.choiceFirst (fits_escapePattern c rest))) induction
  | case4 c rest notQuotes notEscape induction =>
      rw [cutTextBlock]
      · refine .round (.seq (.notAhead (fits_triple_none ?_)) (.choiceSecond
          (fits_escapePattern_none ?_) (fits_any c rest))) induction
        · exact fun more equal => notQuotes more (List.cons.inj equal).1 (List.cons.inj equal).2
        · exact fun c' more equal =>
            notEscape c' more (List.cons.inj equal).1 (List.cons.inj equal).2
      · exact notQuotes
      · exact notEscape

theorem fits_quoted (quote : Char) (cs : List Char) :
    Pattern.Fits (.many (quotedPattern quote)) cs (some (cutQuotedBody quote cs)) := by
  induction cs using cutQuotedBody.induct quote with
  | case1 =>
      exact .manyEnd (.choiceSecond (fits_escapePattern_none (by simp)) (fits_character_nil _))
  | case2 c rest body left found induction =>
      rw [found] at induction
      rw [cutQuotedBody, found]
      exact .manyMore (.choiceFirst (fits_escapePattern c rest)) induction
  | case3 c rest notEscape ends =>
      rw [cutQuotedBody, if_pos ends]
      · refine .manyEnd
          (.choiceSecond (fits_escapePattern_none fun c' more equal => notEscape c' more
          (List.cons.inj equal).1 (List.cons.inj equal).2) (fits_character_none ?_ rest))
        simp only [Bool.or_eq_true, decide_eq_true_eq] at ends
        rcases ends with (ends | ends) | ends <;> simp [ends]
      · exact notEscape
  | case4 c rest notEscape goesOn body left found induction =>
      rw [found] at induction
      rw [cutQuotedBody, if_neg goesOn, found]
      · refine .manyMore
          (.choiceSecond (fits_escapePattern_none fun c' more equal => notEscape c' more
          (List.cons.inj equal).1 (List.cons.inj equal).2) (.character ?_)) induction
        simpa [and_assoc] using goesOn
      · exact notEscape

theorem fits_cutQuoted {quote : Char} {mayBeEmpty : Bool} {part : Pattern} {rest : List Char}
    (inside : Pattern.Fits part rest (some (cutQuotedBody quote rest)))
    (allowed : (mayBeEmpty || !(cutQuotedBody quote rest).1.isEmpty) = true) :
    Pattern.Fits (.seq (.character (· = quote)) (.seq part (.character (· = quote))))
      (quote :: rest)
      (cutQuoted quote mayBeEmpty rest) := by
  rw [cutQuoted]
  generalize cutQuotedBody quote rest = parts at inside allowed ⊢
  rcases parts with ⟨body, _ | ⟨c, left⟩⟩
  · exact .seqSecondNone (fits_exactly _ _) (.seqSecondNone inside (fits_character_nil _))
  · simp only [allowed, Bool.and_true, decide_eq_true_eq, List.cons_append]
    split
    next closes =>
      subst closes
      exact .seq (fits_exactly c rest) (.seq inside (fits_exactly c left))
    next other =>
      exact .seqSecondNone (fits_exactly _ _) (.seqSecondNone inside
        (fits_character_none (decide_eq_false other) left))

theorem fits_stringPattern (rest : List Char) :
    Pattern.Fits stringPattern ('"' :: rest) (cutString rest) :=
  fits_cutQuoted (fits_quoted '"' rest) rfl

theorem fits_characterPattern (rest : List Char) :
    Pattern.Fits characterPattern ('\'' :: rest) (cutQuoted '\'' false rest) := by
  have inside := fits_quoted '\'' rest
  generalize found : some (cutQuotedBody '\'' rest) = result at inside
  cases inside with
  | manyEnd nothing =>
      have missing : Pattern.Fits characterPattern ('\'' :: rest) none :=
        .seqSecondNone (fits_exactly _ _) (.seqFirstNone (.seqFirstNone nothing))
      rw [cutQuoted, Option.some.inj found]
      cases rest with
      | nil => exact missing
      | cons c left => simpa using missing
  | @manyMore _ _ front between back _ first more =>
      refine fits_cutQuoted (found ▸ .seq first more) ?_
      rw [Option.some.inj found, Bool.false_or, Bool.not_eq_true', List.isEmpty_eq_false_iff]
      exact fun nothing => (first.taken rfl).2 rfl (List.append_eq_nil_iff.1 nothing).1

theorem fits_quote (rest : List Char) :
    Pattern.Fits (.choice stringPattern (.choice characterPattern numberPattern)) ('"' :: rest)
      (cutString rest) :=
  (fits_stringPattern rest).orNone
    (.choiceSecond (fits_start_none (decide_eq_false (by decide)) rest)
    (fits_start_none rfl rest))

theorem fits_literalPattern (cs : List Char) : Pattern.Fits literalPattern cs (cutLiteral cs) := by
  have noBlock : ∀ {cs : List Char}, (∀ rest, cs ≠ '"' :: '"' :: '"' :: rest) →
      Pattern.Fits textBlockPattern cs none := fun other => .seqFirstNone (fits_triple_none other)
  fun_cases cutLiteral cs with
  | case1 block body left found =>
      have behind := fits_textBlock block
      rw [found] at behind
      exact .choiceFirst (.seq (fits_triple '"' block) behind)
  | case2 block missing =>
      have behind := fits_textBlock block
      rw [missing] at behind
      exact .choiceSecond (.seqSecondNone (fits_triple '"' block) behind) (fits_quote _)
  | case3 more notBlock =>
      exact .choiceSecond (noBlock (by simpa using notBlock)) (fits_quote more)
  | case4 more =>
      exact .choiceSecond (noBlock (by simp)) (.choiceSecond
        (fits_start_none (decide_eq_false (by decide)) more)
        ((fits_characterPattern more).orNone (fits_start_none rfl more)))
  | case5 c more notBlock notString notCharacter digit =>
      have number := fits_run (·.isDigit) isNumberPart c more
      rw [if_pos digit] at number
      exact .choiceSecond (noBlock (by simpa using notBlock)) (.choiceSecond
        (fits_start_none (decide_eq_false notString) more) (.choiceSecond
          (fits_start_none (decide_eq_false notCharacter) more) number))
  | case6 c more notBlock notString notCharacter notDigit =>
      exact .choiceSecond (noBlock (by simpa using notBlock)) (.choiceSecond
        (fits_start_none (decide_eq_false notString) more) (.choiceSecond
          (fits_start_none (decide_eq_false notCharacter) more)
          (fits_start_none (Bool.eq_false_iff.2 notDigit) more)))
  | case7 =>
      exact .choiceSecond (noBlock (by simp)) (.choiceSecond (.seqFirstNone (fits_character_nil _))
        (.choiceSecond (.seqFirstNone (fits_character_nil _))
          (.seqFirstNone (fits_character_nil _))))

theorem fits_endPattern (cs : List Char) :
    Pattern.Fits endPattern cs (if cs.isEmpty then some ([], cs) else none) := by
  cases cs with
  | nil => exact .notAhead (fits_character_nil _)
  | cons c rest => exact .notAheadNone (fits_any c rest)

/-! ## All patterns -/

theorem existsUnique_fits {pattern : Pattern} (member : pattern ∈ patterns) (cs : List Char) :
    ∃! result, Pattern.Fits pattern cs result := by
  have fits : ∃ result, Pattern.Fits pattern cs result := by
    simp only [patterns, List.mem_cons, List.not_mem_nil, or_false] at member
    rcases member with rfl | rfl | rfl | rfl | rfl
    · rcases Trivia.exists_taken cs with ⟨taken, fits, -⟩
      exact ⟨_, (fits _).2 rfl⟩
    · exact ⟨_, fits_wordPattern cs⟩
    · exact ⟨_, fits_punctuationPattern cs⟩
    · exact ⟨_, fits_literalPattern cs⟩
    · exact ⟨_, fits_endPattern cs⟩
  exact fits.imp fun result fits => ⟨fits, fun _ other => other.unique fits⟩

theorem byteCount_lt_of_round {pattern part : Pattern} (member : pattern ∈ patterns)
    (again : part ∈ pattern.repeated) {cs front rest : List Char}
    (fits : Pattern.Fits part cs (some (front, rest))) :
    Text.byteCount rest < Text.byteCount cs := by
  have takes : (patterns.all fun pattern => pattern.repeated.all (!·.mayTakeNothing)) = true := rfl
  have here := List.all_eq_true.1 (List.all_eq_true.1 takes pattern member) part again
  rw [Bool.not_eq_true'] at here
  rcases fits.taken rfl with ⟨rfl, some⟩
  have positive : Text.byteCount front ≠ 0 := fun nothing =>
    some here (Text.byteCount_eq_zero_iff.1 nothing)
  rw [Text.byteCount_append]
  omega

end Verbatim.Java
