import Mathlib.Data.List.Basic
import Verbatim.Proofs.Java.Tokens

/-! What tokens see of what follows them. A token is cut by its own characters and by at most
two that stand behind it; only quotes and stars that open something without an end look further.
So where a character that is part of neither stands between, the rest of a text can be exchanged
for another. -/

namespace Verbatim

/-! ## Runs of characters -/

namespace Text

theorem takeWhile_append_eq_iff {p : Char → Bool} {front rest : List Char} :
    (front ++ rest).takeWhile p = front ↔
      (∀ c ∈ front, p c = true) ∧ ∀ c more, rest = c :: more → p c = false := by
  induction front with
  | nil =>
      cases rest with
      | nil => simp
      | cons c more => simp [List.takeWhile_cons]
  | cons c front induction =>
      rw [List.cons_append, List.takeWhile_cons, List.forall_mem_cons, and_assoc, ← induction]
      cases p c <;> simp

theorem dropWhile_append_of_takeWhile {p : Char → Bool} {front rest : List Char}
    (run : (front ++ rest).takeWhile p = front) : (front ++ rest).dropWhile p = rest := by
  have whole := List.takeWhile_append_dropWhile (p := p) (l := front ++ rest)
  rw [run] at whole
  exact List.append_cancel_left whole

end Text

namespace Java

/-! ## Closed pieces

A text block and a quoted text are told by their own characters. -/

theorem length_of_cutTextBlock {cs body rest : List Char}
    (cut : cutTextBlock cs = some (body, rest)) : 3 ≤ body.length := by
  induction cs using cutTextBlock.induct generalizing body rest with
  | case1 => simp [cutTextBlock] at cut
  | case2 more =>
      simp only [cutTextBlock, Option.some.injEq, Prod.mk.injEq] at cut
      rw [← cut.1]
      exact Nat.le_refl 3
  | case3 c more induction =>
      rw [cutTextBlock] at cut
      rcases Option.map_eq_some_iff.1 cut with ⟨⟨inner, left⟩, found, pair⟩
      cases pair
      exact Nat.le_trans (induction found) (Nat.le_add_right _ 2)
  | case4 c more notQuotes notEscape induction =>
      rw [cutTextBlock] at cut
      · rcases Option.map_eq_some_iff.1 cut with ⟨⟨inner, left⟩, found, pair⟩
        cases pair
        exact Nat.le_trans (induction found) (Nat.le_add_right _ 1)
      · exact notQuotes
      · exact notEscape

theorem cutTextBlock_exchange {body rest : List Char}
    (cut : cutTextBlock (body ++ rest) = some (body, rest)) (other : List Char) :
    cutTextBlock (body ++ other) = some (body, other) := by
  generalize whole : body ++ rest = cs at cut
  induction cs using cutTextBlock.induct generalizing body with
  | case1 => simp [cutTextBlock] at cut
  | case2 more =>
      simp only [cutTextBlock, Option.some.injEq, Prod.mk.injEq] at cut
      rw [← cut.1]
      rfl
  | case3 c more induction =>
      rw [cutTextBlock] at cut
      rcases Option.map_eq_some_iff.1 cut with ⟨⟨inner, left⟩, found, pair⟩
      cases pair
      have inside := induction ((List.cons.inj (List.cons.inj whole).2).2) found
      rw [List.cons_append, List.cons_append, cutTextBlock, inside]
      rfl
  | case4 c more notQuotes notEscape induction =>
      rw [cutTextBlock] at cut
      · rcases Option.map_eq_some_iff.1 cut with ⟨⟨inner, left⟩, found, pair⟩
        cases pair
        have equal : inner ++ rest = more := (List.cons.inj whole).2
        have inside := induction equal found
        -- The piece is long enough to hold all that tells the cases apart.
        rcases inner with _ | ⟨first, _ | ⟨second, inner⟩⟩
        · exact absurd (length_of_cutTextBlock found) (by simp)
        · exact absurd (length_of_cutTextBlock found) (by simp)
        · subst equal
          rw [List.cons_append, cutTextBlock, inside]
          · rfl
          · intro more c' rest'
            cases rest'
            exact notQuotes _ c' rfl
          · intro c' more' c'' rest'
            cases rest'
            exact notEscape _ _ c'' rfl
      · exact notQuotes
      · exact notEscape

theorem cutQuotedBody_exchange {quote : Char} (notEscape : quote ≠ '\\') {body rest : List Char}
    (cut : cutQuotedBody quote (body ++ quote :: rest) = (body, quote :: rest))
    (other : List Char) :
    cutQuotedBody quote (body ++ quote :: other) = (body, quote :: other) := by
  generalize whole : body ++ quote :: rest = cs at cut
  induction cs using cutQuotedBody.induct quote generalizing body with
  | case1 => simp at whole
  | case2 c more inner left found induction =>
      rw [cutQuotedBody, found] at cut
      cases cut
      have inside := induction ((List.cons.inj (List.cons.inj whole).2).2) found
      rw [List.cons_append, List.cons_append, cutQuotedBody, inside]
  | case3 c more notEscaped closes =>
      rw [cutQuotedBody, if_pos closes] at cut
      · cases cut
        cases whole
        rw [List.nil_append, cutQuotedBody, if_pos (by simp)]
        exact fun _ _ equal _ => notEscape equal
      · exact notEscaped
  | case4 c more notEscaped goes inner left found induction =>
      rw [cutQuotedBody, if_neg goes, found] at cut
      · cases cut
        have inside := induction (List.cons.inj whole).2 found
        rw [List.cons_append, cutQuotedBody, if_neg goes, inside]
        simp only [Bool.or_eq_true, decide_eq_true_eq, not_or] at goes
        exact fun _ _ equal _ => goes.1.2 equal
      · exact notEscaped

theorem cutQuoted_exchange {quote : Char} (notEscape : quote ≠ '\\') {mayBeEmpty : Bool}
    {more rest : List Char}
    (cut : cutQuoted quote mayBeEmpty (more ++ rest) = some (quote :: more, rest))
    (other : List Char) :
    cutQuoted quote mayBeEmpty (more ++ other) = some (quote :: more, other) := by
  rw [cutQuoted] at cut
  rcases parts : cutQuotedBody quote (more ++ rest) with ⟨body, behind⟩
  have whole := cutQuotedBody_append quote (more ++ rest)
  rw [parts] at cut whole
  cases behind with
  | nil => cases cut
  | cons c behind =>
      simp only [Option.ite_none_right_eq_some, Bool.and_eq_true, decide_eq_true_eq,
        Option.some.injEq, Prod.mk.injEq, List.cons_append, List.cons.injEq, true_and] at cut
      rcases cut with ⟨⟨rfl, filled⟩, rfl, rfl⟩
      rw [List.append_assoc, List.singleton_append] at parts
      have exchanged := cutQuotedBody_exchange notEscape parts other
      rw [cutQuoted, List.append_assoc, List.singleton_append, exchanged]
      simp [filled]

theorem length_of_cutQuoted {quote : Char} {mayBeEmpty : Bool} {cs text rest : List Char}
    (cut : cutQuoted quote mayBeEmpty cs = some (text, rest)) : 2 ≤ text.length := by
  rw [cutQuoted] at cut
  generalize cutQuotedBody quote cs = parts at cut
  rcases parts with ⟨body, _ | ⟨c, behind⟩⟩
  · cases cut
  · simp only [Option.ite_none_right_eq_some, Option.some.injEq, Prod.mk.injEq] at cut
    rw [← cut.2.1]
    simp

/-! ## Joints -/

def isJoint (c : Char) : Bool := !(['"', '\\', '*', '/', '.', ':', '>'].contains c)

theorem isJoint_iff {c : Char} :
    isJoint c = true ↔ c ≠ '"' ∧ c ≠ '\\' ∧ c ≠ '*' ∧ c ≠ '/' ∧ c ≠ '.' ∧ c ≠ ':' ∧ c ≠ '>' := by
  simp [isJoint]

/-- Only a quote goes on with a quote, and only an escape with the text block behind it. -/
theorem cutTextBlock_plain {c : Char} (notQuote : c ≠ '"') (notEscape : c ≠ '\\')
    (front back : List Char) :
    cutTextBlock (front ++ c :: back) = none ↔
      cutTextBlock front = none ∧ cutTextBlock back = none := by
  induction front using cutTextBlock.induct with
  | case1 =>
      have here : cutTextBlock (c :: back) = none ↔ cutTextBlock back = none := by
        rw [cutTextBlock, Option.map_eq_none_iff]
        · exact fun _ equal _ => notQuote equal
        · exact fun _ _ equal _ => notEscape equal
      rw [List.nil_append, here, cutTextBlock]
      exact (and_iff_right rfl).symm
  | case2 more => simp [cutTextBlock]
  | case3 escaped more induction =>
      rw [List.cons_append, List.cons_append, cutTextBlock, cutTextBlock, Option.map_eq_none_iff,
        Option.map_eq_none_iff, induction]
  | case4 first more notQuotes notEscaped induction =>
      by_cases escape : first = '\\'
      · cases more with
        | nil =>
            subst escape
            rw [List.singleton_append, cutTextBlock, Option.map_eq_none_iff]
            exact (and_iff_right rfl).symm
        | cons second more => exact absurd rfl (notEscaped second more escape)
      · rw [List.cons_append, cutTextBlock, cutTextBlock, Option.map_eq_none_iff,
          Option.map_eq_none_iff, induction]
        · exact notQuotes
        · exact fun _ _ equal _ => escape equal
        · intro rest equal shape
          rcases more with _ | ⟨second, _ | ⟨third, more⟩⟩
          · exact notQuote (List.cons.inj shape).1
          · exact notQuote (List.cons.inj (List.cons.inj shape).2).1
          · cases (List.cons.inj shape).1
            cases (List.cons.inj (List.cons.inj shape).2).1
            exact notQuotes _ equal rfl
        · exact fun _ _ equal _ => escape equal

theorem cutTextBlock_joint {c : Char} (joint : isJoint c = true) (front back : List Char) :
    cutTextBlock (front ++ c :: back) = none ↔
      cutTextBlock front = none ∧ cutTextBlock back = none :=
  cutTextBlock_plain (isJoint_iff.1 joint).1 (isJoint_iff.1 joint).2.1 front back

theorem cutBlock_joint {c : Char} (joint : isJoint c = true) (front back : List Char) :
    Trivia.cutBlock (front ++ c :: back) = none ↔
      Trivia.cutBlock front = none ∧ Trivia.cutBlock back = none := by
  rcases isJoint_iff.1 joint with ⟨-, -, notStar, notSlash, -⟩
  induction front using Trivia.cutBlock.induct with
  | case1 =>
      have here : Trivia.cutBlock (c :: back) = none ↔ Trivia.cutBlock back = none := by
        rw [Trivia.cutBlock, Option.map_eq_none_iff]
        exact fun _ equal _ => notStar equal
      rw [List.nil_append, here, Trivia.cutBlock]
      exact (and_iff_right rfl).symm
  | case2 more => simp [Trivia.cutBlock]
  | case3 first more notEnd induction =>
      rw [List.cons_append, Trivia.cutBlock, Trivia.cutBlock, Option.map_eq_none_iff,
        Option.map_eq_none_iff, induction]
      · exact notEnd
      · intro rest equal shape
        cases more with
        | nil => exact notSlash (List.cons.inj shape).1
        | cons second more =>
            cases (List.cons.inj shape).1
            exact notEnd _ equal rfl

theorem isJoint_of_isSpace {c : Char} (space : Trivia.isSpace c = true) : isJoint c = true := by
  simp only [Trivia.isSpace, Bool.or_eq_true, decide_eq_true_eq] at space
  rcases space with (((rfl | rfl) | rfl) | rfl) | rfl <;> decide

theorem not_isWordPart_of_isSpace {c : Char} (space : Trivia.isSpace c = true) :
    isWordPart c = false := by
  simp only [Trivia.isSpace, Bool.or_eq_true, decide_eq_true_eq] at space
  rcases space with (((rfl | rfl) | rfl) | rfl) | rfl <;> decide

theorem not_isNumberPart_of_isSpace {c : Char} (space : Trivia.isSpace c = true) :
    isNumberPart c = false := by
  simp only [Trivia.isSpace, Bool.or_eq_true, decide_eq_true_eq] at space
  rcases space with (((rfl | rfl) | rfl) | rfl) | rfl <;> decide

/-! ## Words -/

theorem isWordPart_of_isWordStart {c : Char} (starts : isWordStart c = true) :
    isWordPart c = true := by
  simp only [isWordStart, Bool.or_eq_true] at starts
  simp only [isWordPart, Text.isLetterOrNumber, Bool.or_eq_true]
  exact starts.imp_left (Or.imp_left .inl)

theorem isJoint_of_isWordPart {c : Char} (part : isWordPart c = true) : isJoint c = true := by
  rw [isJoint, Bool.not_eq_true', ← Bool.not_eq_true]
  simp only [List.contains_iff_mem, List.mem_cons, List.not_mem_nil, or_false]
  rintro (rfl | rfl | rfl | rfl | rfl | rfl | rfl) <;> exact absurd part (by decide)

theorem isWord_iff {text : List Char} : isWord text = true ↔
    ∃ first more, text = first :: more ∧ isWordStart first = true ∧
      ∀ c ∈ text, isWordPart c = true := by
  cases text with
  | nil => simp [isWord]
  | cons first more =>
      rw [isWord, Bool.and_eq_true, List.all_eq_true]
      constructor
      · rintro ⟨starts, parts⟩
        exact ⟨first, more, rfl, starts, List.forall_mem_cons.2
          ⟨isWordPart_of_isWordStart starts, parts⟩⟩
      · rintro ⟨_, _, equal, starts, parts⟩
        cases equal
        exact ⟨starts, (List.forall_mem_cons.1 parts).2⟩

theorem cutWord_eq_some_iff {text rest : List Char} : cutWord (text ++ rest) = some (text, rest) ↔
    isWord text = true ∧ ∀ c more, rest = c :: more → isWordPart c = false := by
  cases text with
  | nil =>
      refine iff_of_false (fun cut => ?_) fun word => Bool.false_ne_true word.1
      rcases cutWord_cutsFront _ _ _ cut with ⟨-, first, more, equal, -⟩
      cases equal
  | cons first more =>
      rw [isWord, List.cons_append, cutWord, Bool.and_eq_true, List.all_eq_true, and_assoc,
        ← Text.takeWhile_append_eq_iff]
      constructor
      · intro cut
        rw [Option.ite_none_right_eq_some, Option.some.injEq, Prod.mk.injEq, List.cons.injEq] at cut
        exact ⟨cut.1, cut.2.1.2⟩
      · rintro ⟨starts, run⟩
        rw [if_pos starts, run, Text.dropWhile_append_of_takeWhile run]

/-! ## Texts that may be exchanged -/

/-- What is cut in front of something that is followed by `rest` is cut in the same way if `other`
follows; and what does not end in front of `rest` does not end in front of `other`. -/
structure GivesWayBehind (rest other : List Char) : Prop where
  tokens : ∀ (tokenClass : TokenClass) text between, between ≠ [] →
    tokenClass.cut (text ++ (between ++ rest)) = some (text, between ++ rest) →
      tokenClass.cut (text ++ (between ++ other)) = some (text, between ++ other)
  trivia : ∀ front trivia behind, behind ≠ [] →
    Trivia.cut (front ++ (behind ++ rest)) = (trivia, behind ++ rest) →
      Trivia.cut (front ++ (behind ++ other)) = (trivia, behind ++ other)
  textBlock : ∀ front, cutTextBlock (front ++ rest) = none → cutTextBlock (front ++ other) = none
  block : ∀ front, Trivia.cutBlock (front ++ rest) = none → Trivia.cutBlock (front ++ other) = none

/-- What is cut directly in front of `rest` is cut in the same way in front of `other`, too. -/
structure GivesWay (rest other : List Char) : Prop extends GivesWayBehind rest other where
  directly : ∀ (tokenClass : TokenClass) text, tokenClass.cut (text ++ rest) = some (text, rest) →
    tokenClass.cut (text ++ other) = some (text, other)

theorem GivesWayBehind.trans {rest other third : List Char} (first : GivesWayBehind rest other)
    (second : GivesWayBehind other third) : GivesWayBehind rest third where
  tokens tokenClass text between nonempty cut :=
    second.tokens tokenClass text between nonempty
      (first.tokens tokenClass text between nonempty cut)
  trivia front trivia behind nonempty cut :=
    second.trivia front trivia behind nonempty (first.trivia front trivia behind nonempty cut)
  textBlock front none := second.textBlock front (first.textBlock front none)
  block front none := second.block front (first.block front none)

namespace GivesWay

variable {rest other third : List Char}

theorem token (gives : GivesWay rest other) (tokenClass : TokenClass) (text between : List Char)
    (cut : tokenClass.cut (text ++ (between ++ rest)) = some (text, between ++ rest)) :
    tokenClass.cut (text ++ (between ++ other)) = some (text, between ++ other) := by
  cases between with
  | nil => exact gives.directly tokenClass text cut
  | cons c between =>
      exact gives.tokens tokenClass text (c :: between) (List.cons_ne_nil c between) cut

theorem refl (rest : List Char) : GivesWay rest rest :=
  ⟨⟨fun _ _ _ _ cut => cut, fun _ _ _ _ cut => cut, fun _ none => none, fun _ none => none⟩,
    fun _ _ cut => cut⟩

theorem trans (first : GivesWay rest other) (second : GivesWay other third) :
    GivesWay rest third :=
  ⟨first.toGivesWayBehind.trans second.toGivesWayBehind, fun tokenClass text cut =>
    second.directly tokenClass text (first.directly tokenClass text cut)⟩

theorem of_behind (gives : GivesWayBehind rest other) {piece : List Char} (nonempty : piece ≠ []) :
    GivesWay (piece ++ rest) (piece ++ other) where
  directly tokenClass text := gives.tokens tokenClass text piece nonempty
  tokens tokenClass text between _ := by
    rw [← List.append_assoc between, ← List.append_assoc between]
    exact gives.tokens tokenClass text (between ++ piece)
      fun empty => nonempty (List.append_eq_nil_iff.1 empty).2
  trivia front trivia behind nonempty := by
    rw [← List.append_assoc behind, ← List.append_assoc behind]
    exact gives.trivia front trivia (behind ++ piece)
      fun empty => nonempty (List.append_eq_nil_iff.1 empty).1
  textBlock front := by
    rw [← List.append_assoc, ← List.append_assoc]
    exact gives.textBlock (front ++ piece)
  block front := by
    rw [← List.append_assoc, ← List.append_assoc]
    exact gives.block (front ++ piece)

theorem prepend (gives : GivesWay rest other) (piece : List Char) :
    GivesWay (piece ++ rest) (piece ++ other) := by
  cases piece with
  | nil => exact gives
  | cons c piece => exact of_behind gives.toGivesWayBehind (List.cons_ne_nil c piece)

end GivesWay

theorem GivesWayBehind.prepend {rest other : List Char} (gives : GivesWayBehind rest other)
    (piece : List Char) : GivesWayBehind (piece ++ rest) (piece ++ other) := by
  cases piece with
  | nil => exact gives
  | cons c piece => exact (GivesWay.of_behind gives (List.cons_ne_nil c piece)).toGivesWayBehind

/-! What a quote or a mark can go on with is told by the next two characters. -/

def GoesOnLess (rest other : List Char) : Prop :=
  ∀ start ∈ [['"'], [':'], ['>'], ['.', '.']], start <+: other → start <+: rest

section

variable {text rest other : List Char} (less : GoesOnLess rest other)

include less

theorem cutLiteral_goesOn
    (textBlock : text = ['"', '"'] → ∀ more more', rest = '"' :: more → other = '"' :: more' →
      cutTextBlock more = none → cutTextBlock more' = none)
    (number : (text.head?.any Char.isDigit) = true →
      (∀ c more, rest = c :: more → isNumberPart c = false) →
        ∀ c more, other = c :: more → isNumberPart c = false)
    (cut : cutLiteral (text ++ rest) = some (text, rest)) :
    cutLiteral (text ++ other) = some (text, other) := by
  generalize whole : text ++ rest = cs at cut
  fun_cases cutLiteral cs with
  | case1 block body left found =>
      rw [cutLiteral, found] at cut
      cases cut
      rw [tripleQuote, List.append_assoc] at whole
      have equal : body ++ rest = block := List.append_cancel_left whole
      subst equal
      rw [tripleQuote, List.append_assoc, List.cons_append, List.cons_append, List.cons_append,
        List.nil_append, cutLiteral, cutTextBlock_exchange found]
      rfl
  | case2 block missing =>
      -- three quotes open nothing, and two of them are an empty string
      rw [cutLiteral, missing, cutString, cutQuoted, cutQuotedBody, if_pos (by simp)] at cut
      · simp only [decide_true, Bool.true_or, Bool.and_self, if_true, Option.some.injEq,
          Prod.mk.injEq] at cut
        rcases cut with ⟨rfl, rfl⟩
        cases other with
        | nil => simp [cutLiteral, cutString, cutQuoted, cutQuotedBody]
        | cons c more' =>
            by_cases isQuote : c = '"'
            · subst isQuote
              rcases less ['"'] (by simp) (List.prefix_append _ _) with ⟨more, equal⟩
              cases equal
              simp [cutLiteral, textBlock rfl _ _ rfl rfl missing,
                cutString, cutQuoted, cutQuotedBody]
            · simp [cutLiteral, isQuote, cutString, cutQuoted, cutQuotedBody]
      · exact fun _ _ equal _ => absurd equal (by decide)
  | case3 more notBlock =>
      rw [cutLiteral] at cut
      · rcases cutQuoted_append cut with ⟨-, inner, rfl⟩
        have equal : inner ++ rest = more := (List.cons.inj whole).2
        subst equal
        rw [List.cons_append, cutLiteral]
        · exact cutQuoted_exchange (by decide) cut _
        · intro more shape
          rcases inner with _ | ⟨second, _ | ⟨third, inner⟩⟩
          · exact absurd (length_of_cutQuoted cut) (by simp)
          · cases (List.cons.inj shape).1
            have starts : ['"'] <+: other := ⟨_, (List.cons.inj shape).2.symm⟩
            rcases less ['"'] (by simp) starts with ⟨more', equal⟩
            exact notBlock more' (by rw [← equal]; rfl)
          · cases (List.cons.inj shape).1
            cases (List.cons.inj (List.cons.inj shape).2).1
            exact notBlock _ rfl
      · exact notBlock
  | case4 more =>
      rcases cutQuoted_append cut with ⟨-, inner, rfl⟩
      have equal : inner ++ rest = more := (List.cons.inj whole).2
      subst equal
      exact cutQuoted_exchange (by decide) cut _
  | case5 first more notBlock notString notCharacter digit =>
      rw [cutLiteral, if_pos digit] at cut
      · rw [Option.some.injEq, Prod.mk.injEq] at cut
        rcases cut with ⟨rfl, -⟩
        have equal := (List.cons.inj whole).2
        have run := Text.takeWhile_append_eq_iff.1 (congrArg (List.takeWhile isNumberPart) equal)
        have again := Text.takeWhile_append_eq_iff.2 ⟨run.1, number digit run.2⟩
        rw [List.cons_append, cutLiteral, if_pos digit, again,
          Text.dropWhile_append_of_takeWhile again]
        · exact fun _ equal _ => notString equal
        · exact notString
        · exact notCharacter
      · exact notBlock
      · exact notString
      · exact notCharacter
  | case6 first more notBlock notString notCharacter notDigit =>
      rw [cutLiteral, if_neg notDigit] at cut
      · cases cut
      · exact notBlock
      · exact notString
      · exact notCharacter
  | case7 => cases cut

theorem cutPunctuation_goesOn (cut : cutPunctuation (text ++ rest) = some (text, rest)) :
    cutPunctuation (text ++ other) = some (text, other) := by
  generalize whole : text ++ rest = cs at cut
  fun_cases cutPunctuation cs with
  | case1 more =>
      cases cut
      rfl
  | case2 more =>
      cases cut
      rfl
  | case3 more =>
      cases cut
      rfl
  | case4 first more notEllipsis notReference notArrow punctuation =>
      rw [cutPunctuation, if_pos punctuation] at cut
      · cases cut
        rw [List.singleton_append, cutPunctuation, if_pos punctuation]
        · rintro more rfl rfl
          rcases less ['.', '.'] (by simp) (List.prefix_append _ _) with ⟨more', equal⟩
          exact notEllipsis more' rfl equal.symm
        · rintro more rfl rfl
          rcases less [':'] (by simp) (List.prefix_append _ _) with ⟨more', equal⟩
          exact notReference more' rfl equal.symm
        · rintro more rfl rfl
          rcases less ['>'] (by simp) (List.prefix_append _ _) with ⟨more', equal⟩
          exact notArrow more' rfl equal.symm
      · exact notEllipsis
      · exact notReference
      · exact notArrow
  | case5 first more notEllipsis notReference notArrow notPunctuation =>
      rw [cutPunctuation, if_neg notPunctuation] at cut
      · cases cut
      · exact notEllipsis
      · exact notReference
      · exact notArrow
  | case6 => cases cut

theorem TokenClass.cut_goesOn (tokenClass : TokenClass)
    (textBlock : text = ['"', '"'] → ∀ more more', rest = '"' :: more → other = '"' :: more' →
      cutTextBlock more = none → cutTextBlock more' = none)
    (word : tokenClass = .word → (∀ c more, rest = c :: more → isWordPart c = false) →
      ∀ c more, other = c :: more → isWordPart c = false)
    (number : (text.head?.any Char.isDigit) = true →
      (∀ c more, rest = c :: more → isNumberPart c = false) →
        ∀ c more, other = c :: more → isNumberPart c = false)
    (cut : tokenClass.cut (text ++ rest) = some (text, rest)) :
    tokenClass.cut (text ++ other) = some (text, other) := by
  cases tokenClass with
  | literal => exact cutLiteral_goesOn less textBlock number cut
  | word =>
      have isWord := cutWord_eq_some_iff.1 cut
      exact cutWord_eq_some_iff.2 ⟨isWord.1, word rfl isWord.2⟩
  | punctuation => exact cutPunctuation_goesOn less cut
  | endOfText => cases cut
  | stray => cases cut

end

/-! A joint is exchanged for another. Directly behind a word or a number the new one must not go on
with what the old one ends. -/

section

variable {c c' : Char} {rest other : List Char} (joint : isJoint c = true)
  (joint' : isJoint c' = true)

include joint joint'

omit joint in
theorem goesOnLess_of_joint (between : List Char) :
    GoesOnLess (between ++ c :: rest) (between ++ c' :: other) := by
  intro start member starts
  rcases isJoint_iff.1 joint' with ⟨notQuote, -, -, -, notDot, notColon, notGreater⟩
  have without : c' ∉ start := by
    intro inside
    simp only [List.mem_cons, List.not_mem_nil, or_false] at member
    rcases member with rfl | rfl | rfl | rfl <;> simp_all
  have within : start <+: between := by
    rcases Nat.lt_or_ge between.length start.length with longer | shorter
    · have all : between ++ [c'] <+: between ++ c' :: other := ⟨other, by simp⟩
      have inside : between ++ [c'] <+: start :=
        List.prefix_of_prefix_length_le all starts (by rw [List.length_append]; exact longer)
      exact absurd (inside.subset (by simp)) without
    · exact List.prefix_of_prefix_length_le starts (List.prefix_append _ _) shorter
  exact within.trans (List.prefix_append _ _)

theorem TokenClass.cut_exchange (tokenClass : TokenClass)
    (textBlock : cutTextBlock rest = none → cutTextBlock other = none) {text between : List Char}
    (word : between = [] → tokenClass = .word → isWordPart c = false → isWordPart c' = false)
    (number : between = [] → (text.head?.any Char.isDigit) = true → isNumberPart c = false →
      isNumberPart c' = false)
    (cut : tokenClass.cut (text ++ (between ++ c :: rest)) = some (text, between ++ c :: rest)) :
    tokenClass.cut (text ++ (between ++ c' :: other)) = some (text, between ++ c' :: other) := by
  have heads {p : Char → Bool} (here : between = [] → p c = false → p c' = false)
      (ends : ∀ head more, between ++ c :: rest = head :: more → p head = false) :
      ∀ head more, between ++ c' :: other = head :: more → p head = false := by
    intro head more equal
    cases between with
    | nil =>
        cases (List.cons.inj equal).1
        exact here rfl (ends _ _ rfl)
    | cons first between =>
        cases (List.cons.inj equal).1
        exact ends _ _ rfl
  refine tokenClass.cut_goesOn (goesOnLess_of_joint joint' between)
    (fun _ more more' equal equal' missing => ?_)
    (fun isWord => heads fun empty => word empty isWord)
    (fun digit => heads fun empty => number empty digit) cut
  cases between with
  | nil => exact absurd (List.cons.inj equal').1 (isJoint_iff.1 joint').1
  | cons first between =>
      rw [List.cons_append, List.cons.injEq] at equal equal'
      rw [← equal.2, cutTextBlock_joint joint] at missing
      rw [← equal'.2]
      exact (cutTextBlock_joint joint' _ _).2 ⟨missing.1, textBlock missing.2⟩

end

/-! ## Trivia -/

theorem cutBlock_eq_none_iff {cs : List Char} :
    Trivia.cutBlock cs = none ↔ ¬ ['*', '/'] <:+: cs := by
  induction cs using Trivia.cutBlock.induct with
  | case1 => simp [Trivia.cutBlock]
  | case2 more => simpa [Trivia.cutBlock] using (List.prefix_append ['*', '/'] more).isInfix
  | case3 c more notEnd induction =>
      rw [Trivia.cutBlock, Option.map_eq_none_iff, induction, List.infix_cons_iff, not_or]
      · refine (and_iff_right fun starts => ?_).symm
        rcases starts with ⟨rest, equal⟩
        cases equal
        exact notEnd rest rfl rfl
      · exact notEnd

theorem ne_nil_of_cutBlock {cs body rest : List Char}
    (cut : Trivia.cutBlock cs = some (body, rest)) : body ≠ [] := by
  fun_cases Trivia.cutBlock cs with
  | case1 => cases cut
  | case2 more =>
      cases cut
      exact List.cons_ne_nil _ _
  | case3 c more notEnd =>
      rw [Trivia.cutBlock] at cut
      · rcases Option.map_eq_some_iff.1 cut with ⟨_, -, pair⟩
        cases pair
        exact List.cons_ne_nil _ _
      · exact notEnd

theorem cutBlock_exchange {body rest : List Char}
    (cut : Trivia.cutBlock (body ++ rest) = some (body, rest)) (other : List Char) :
    Trivia.cutBlock (body ++ other) = some (body, other) := by
  generalize whole : body ++ rest = cs at cut
  induction cs using Trivia.cutBlock.induct generalizing body with
  | case1 => simp [Trivia.cutBlock] at cut
  | case2 more =>
      simp only [Trivia.cutBlock, Option.some.injEq, Prod.mk.injEq] at cut
      rw [← cut.1]
      rfl
  | case3 c more notEnd induction =>
      rw [Trivia.cutBlock] at cut
      · rcases Option.map_eq_some_iff.1 cut with ⟨⟨inner, left⟩, found, pair⟩
        cases pair
        have equal : inner ++ rest = more := (List.cons.inj whole).2
        have inside := induction equal found
        subst equal
        cases inner with
        | nil => exact absurd rfl (ne_nil_of_cutBlock found)
        | cons second inner =>
            rw [List.cons_append, Trivia.cutBlock, inside]
            · rfl
            · intro more' equal shape
              cases (List.cons.inj shape).1
              exact notEnd _ equal rfl
      · exact notEnd

theorem newline_of_lineComment {text rest more : List Char} {c : Char}
    (cut : Trivia.cutComment (text ++ rest) = some (.line, text, rest)) (equal : rest = c :: more) :
    c = '\n' := by
  generalize text ++ rest = cs at cut
  fun_cases Trivia.cutComment cs with
  | case1 inside =>
      simp only [Trivia.cutComment, Option.some.injEq, Prod.mk.injEq] at cut
      have stops := Text.takeWhile_append_eq_iff.1
        (congrArg (List.takeWhile fun c => decide (c ≠ '\n'))
          (List.takeWhile_append_dropWhile (p := fun c => decide (c ≠ '\n')) (l := inside)))
      simpa using stops.2 c more (cut.2.2.trans equal)
  | case2 inside =>
      rw [Trivia.cutComment] at cut
      rcases Option.map_eq_some_iff.1 cut with ⟨⟨body, left⟩, -, triple⟩
      have style := (Prod.mk.inj triple).1
      rw [Trivia.blockStyle] at style
      split at style <;> cases style
  | case3 cs notLine notBlock =>
      rw [Trivia.cutComment] at cut
      · cases cut
      · exact notLine
      · exact notBlock

theorem cutComment_exchange {text rest other : List Char} {style : CommentStyle}
    (cut : Trivia.cutComment (text ++ rest) = some (style, text, rest))
    (line : style = .line → ∀ c more, other = c :: more → c = '\n') :
    Trivia.cutComment (text ++ other) = some (style, text, other) := by
  generalize whole : text ++ rest = cs at cut
  fun_cases Trivia.cutComment cs with
  | case1 more =>
      simp only [Trivia.cutComment, Option.some.injEq, Prod.mk.injEq] at cut
      rcases cut with ⟨rfl, rfl, -⟩
      have equal : more.takeWhile (· ≠ '\n') ++ rest = more :=
        (List.cons.inj (List.cons.inj whole).2).2
      have run := Text.takeWhile_append_eq_iff.1
        (congrArg (List.takeWhile fun c => decide (c ≠ '\n')) equal)
      generalize more.takeWhile (· ≠ '\n') = body at run
      have again : (body ++ other).takeWhile (fun c => decide (c ≠ '\n')) = body :=
        Text.takeWhile_append_eq_iff.2 ⟨run.1, fun c more shape => by simp [line rfl c more shape]⟩
      rw [List.cons_append, List.cons_append, Trivia.cutComment, again,
        Text.dropWhile_append_of_takeWhile again]
  | case2 more =>
      rw [Trivia.cutComment] at cut
      rcases Option.map_eq_some_iff.1 cut with ⟨⟨body, left⟩, found, triple⟩
      cases triple
      have equal : body ++ rest = more := (List.cons.inj (List.cons.inj whole).2).2
      subst equal
      rw [List.cons_append, List.cons_append, Trivia.cutComment, cutBlock_exchange found]
      rfl
  | case3 cs notLine notBlock =>
      rw [Trivia.cutComment] at cut
      · cases cut
      · exact notLine
      · exact notBlock

theorem cutComments_of_some {cs text behind : List Char} {style : CommentStyle}
    (found : Trivia.cutComment cs = some (style, text, behind)) :
    Trivia.cutComments cs =
      (⟨style, String.ofList text, String.ofList (behind.takeWhile Trivia.isSpace)⟩ ::
        (Trivia.cutComments (behind.dropWhile Trivia.isSpace)).1,
        (Trivia.cutComments (behind.dropWhile Trivia.isSpace)).2) := by
  rw [Trivia.cutComments]
  split
  next missing => cases found.symm.trans missing
  next again =>
    cases Option.some.inj (found.symm.trans again)
    rfl

theorem cutComments_of_none {cs : List Char} (missing : Trivia.cutComment cs = none) :
    Trivia.cutComments cs = ([], cs) := by
  rw [Trivia.cutComments]
  split
  · rfl
  next found => cases missing.symm.trans found

/-- The last comment is a line comment, and nothing stands behind it. -/
def opensLine (comments : List Comment) : Bool :=
  comments.getLast?.any fun comment => comment.style = .line && comment.gap.isEmpty

theorem opensLine_cons_cons (first second : Comment) (comments : List Comment) :
    opensLine (first :: second :: comments) = opensLine (second :: comments) := by
  rw [opensLine, opensLine, List.getLast?_cons_cons]

section

/-! What stands behind trivia is exchanged: for something with the same first character, or for
something that starts with no white space. -/

variable {rest other : List Char}
  (alike : other.head? = rest.head? ∨ ∀ c more, other = c :: more → Trivia.isSpace c = false)

include alike

theorem takeWhile_isSpace_exchange {space inner : List Char}
    (run : (space ++ (inner ++ rest)).takeWhile Trivia.isSpace = space) :
    (space ++ (inner ++ other)).takeWhile Trivia.isSpace = space := by
  rw [Text.takeWhile_append_eq_iff] at run ⊢
  refine ⟨run.1, fun c more equal => ?_⟩
  cases inner with
  | nil =>
      rcases alike with same | stops
      · rw [List.nil_append] at equal
        rw [equal] at same
        cases rest with
        | nil => cases same
        | cons first rest => exact run.2 c rest (by rw [Option.some.inj same]; rfl)
      · exact stops c more equal
  | cons first inner => exact run.2 c _ (by rw [← (List.cons.inj equal).1]; rfl)

section

variable {left : List Char} {more : List Comment}
  (begins : Trivia.cutComment rest = none → Trivia.cutComments other = (more, left))

include begins

/-- The comments that `other` begins with are cut behind those in front. -/
theorem cutComments_goesOn {front : List Char} {comments : List Comment}
    (closed : rest = [] → other ≠ [] → opensLine comments = false)
    (cut : Trivia.cutComments (front ++ rest) = (comments, rest)) :
    Trivia.cutComments (front ++ other) = (comments ++ more, left) := by
  generalize whole : front ++ rest = cs at cut
  induction cs using Trivia.cutComments.induct generalizing front comments with
  | case1 cs missing =>
      rw [cutComments_of_none missing] at cut
      cases cut
      have empty : front = [] := List.append_left_eq_self.1 whole
      subst empty
      exact begins missing
  | case2 cs style text behind found _ _ others left found' induction =>
      rw [cutComments_of_some found] at cut
      rcases Prod.mk.inj cut with ⟨commentsEqual, rests⟩
      have parts := cutComments_append (behind.dropWhile Trivia.isSpace)
      rw [rests] at parts
      -- All that is cut lies in front: the comment, the white space behind it, and what is cut
      -- behind that.
      generalize (String.join _).toList = inner at parts
      have gapEqual := List.takeWhile_append_dropWhile (p := Trivia.isSpace) (l := behind)
      rw [← parts] at gapEqual
      have run := congrArg (List.takeWhile Trivia.isSpace) gapEqual
      generalize gapIs : behind.takeWhile Trivia.isSpace = gap at gapEqual run commentsEqual
      have frontEqual : front = text ++ (gap ++ inner) := by
        rw [Trivia.cutComment_append found, ← gapEqual, ← List.append_assoc gap,
          ← List.append_assoc] at whole
        exact List.append_cancel_right whole
      have closedInside : rest = [] → other ≠ [] →
          opensLine (Trivia.cutComments (behind.dropWhile Trivia.isSpace)).1 = false := by
        intro empty nonempty
        have outside := closed empty nonempty
        rw [← commentsEqual] at outside
        cases inside : (Trivia.cutComments (behind.dropWhile Trivia.isSpace)).1 with
        | nil => rfl
        | cons second others =>
            rwa [inside, opensLine_cons_cons] at outside
      have exchanged := induction closedInside parts (Prod.ext rfl rests)
      subst frontEqual gapEqual
      have again : Trivia.cutComment (text ++ (gap ++ (inner ++ other))) =
          some (style, text, gap ++ (inner ++ other)) := by
        have old := found
        rw [Trivia.cutComment_append found] at old
        refine cutComment_exchange old fun line c more equal => ?_
        subst line
        -- What stands behind a line comment starts with a line break, which is white space.
        cases gap with
        | cons first gap =>
            rw [← (List.cons.inj equal).1]
            exact newline_of_lineComment old rfl
        | nil =>
            have stops := (Text.takeWhile_append_eq_iff.1 run).2
            rw [List.nil_append] at old equal
            cases shape : inner ++ rest with
            | cons first later =>
                have space := stops first later shape
                rw [newline_of_lineComment old shape] at space
                cases space
            | nil =>
                rcases List.append_eq_nil_iff.1 shape with ⟨rfl, rfl⟩
                rw [List.nil_append] at equal
                have ends := closed rfl (equal ▸ List.cons_ne_nil c more)
                rw [← commentsEqual, ← parts, cutComments_of_none rfl] at ends
                cases ends
      have againRun := takeWhile_isSpace_exchange alike run
      rw [List.append_assoc, List.append_assoc, cutComments_of_some again, againRun,
        Text.dropWhile_append_of_takeWhile againRun, exchanged, ← commentsEqual, List.cons_append]

theorem cutTrivia_goesOn {front : List Char} {trivia : Trivia}
    (closed : rest = [] → other ≠ [] → opensLine trivia.comments = false)
    (cut : Trivia.cut (front ++ rest) = (trivia, rest)) :
    Trivia.cut (front ++ other) = ({ trivia with comments := trivia.comments ++ more }, left) := by
  rw [Trivia.cut] at cut
  rcases Prod.mk.inj cut with ⟨rfl, rests⟩
  have parts := cutComments_append ((front ++ rest).dropWhile Trivia.isSpace)
  rw [rests] at parts
  generalize (String.join _).toList = inner at parts
  have comments := cutComments_goesOn alike begins closed (by rw [parts]; exact Prod.ext rfl rests)
  have spaceEqual := List.takeWhile_append_dropWhile (p := Trivia.isSpace) (l := front ++ rest)
  rw [← parts] at spaceEqual
  have run := congrArg (List.takeWhile Trivia.isSpace) spaceEqual
  generalize (front ++ rest).takeWhile Trivia.isSpace = space at spaceEqual run
  have frontEqual : front = space ++ inner := by
    rw [← List.append_assoc] at spaceEqual
    exact (List.append_cancel_right spaceEqual).symm
  subst frontEqual
  have againRun := takeWhile_isSpace_exchange alike run
  rw [List.append_assoc, Trivia.cut, againRun,
    Text.dropWhile_append_of_takeWhile againRun, comments]

end

end

theorem cutTrivia_exchange {rest other : List Char}
    (noComment : Trivia.cutComment rest = none → Trivia.cutComment other = none)
    (alike : other.head? = rest.head? ∨ ∀ c more, other = c :: more → Trivia.isSpace c = false)
    {front : List Char} {trivia : Trivia}
    (closed : rest = [] → other ≠ [] → opensLine trivia.comments = false)
    (cut : Trivia.cut (front ++ rest) = (trivia, rest)) :
    Trivia.cut (front ++ other) = (trivia, other) := by
  have whole :=
    cutTrivia_goesOn alike (fun missing => cutComments_of_none (noComment missing)) closed cut
  rwa [List.append_nil] at whole

section

variable {c c' : Char} {rest other : List Char} (joint : isJoint c = true)
    (joint' : isJoint c' = true)
  (textBlock : cutTextBlock rest = none → cutTextBlock other = none)
  (block : Trivia.cutBlock rest = none → Trivia.cutBlock other = none)

include joint joint' textBlock block

/-- A joint gives way to another one if no more text blocks and block comments come to an end behind
it. -/
theorem givesWayBehind_of_joints : GivesWayBehind (c :: rest) (c' :: other) := by
  have blocks (front : List Char) (unended : Trivia.cutBlock (front ++ c :: rest) = none) :
      Trivia.cutBlock (front ++ c' :: other) = none := by
    rw [cutBlock_joint joint] at unended
    exact (cutBlock_joint joint' _ _).2 ⟨unended.1, block unended.2⟩
  have comments {h : Char} {behind : List Char}
      (missing : Trivia.cutComment (h :: (behind ++ c :: rest)) = none) :
      Trivia.cutComment (h :: (behind ++ c' :: other)) = none := by
    rcases isJoint_iff.1 joint' with ⟨-, -, notStar, notSlash, -⟩
    by_cases slash : h = '/'
    · subst slash
      cases behind with
      | nil =>
          rw [List.nil_append, Trivia.cutComment]
          · exact fun _ shape => notSlash (List.cons.inj (List.cons.inj shape).2).1
          · exact fun _ shape => notStar (List.cons.inj (List.cons.inj shape).2).1
      | cons second behind =>
          by_cases line : second = '/'
          · subst line
            cases missing
          · by_cases star : second = '*'
            · subst star
              rw [List.cons_append, Trivia.cutComment, Option.map_eq_none_iff] at missing ⊢
              exact blocks behind missing
            · rw [List.cons_append, Trivia.cutComment]
              · exact fun _ shape => line (List.cons.inj (List.cons.inj shape).2).1
              · exact fun _ shape => star (List.cons.inj (List.cons.inj shape).2).1
    · rw [Trivia.cutComment]
      · exact fun _ shape => slash (List.cons.inj shape).1
      · exact fun _ shape => slash (List.cons.inj shape).1
  refine ⟨fun tokenClass text between nonempty cut => ?_,
    fun front trivia behind nonempty cut => ?_, fun front unended => ?_, blocks⟩
  · exact tokenClass.cut_exchange joint joint' textBlock (fun empty => absurd empty nonempty)
      (fun empty => absurd empty nonempty) cut
  · cases behind with
    | nil => exact absurd rfl nonempty
    | cons h behind => exact cutTrivia_exchange comments (.inl rfl) nofun cut
  · rw [cutTextBlock_joint joint] at unended
    exact (cutTextBlock_joint joint' _ _).2 ⟨unended.1, textBlock unended.2⟩

omit joint' in
theorem givesWay_joint (alike : c' = c ∨ Trivia.isSpace c' = true) :
    GivesWay (c :: rest) (c' :: other) := by
  have joint' : isJoint c' = true := by
    rcases alike with rfl | space
    · exact joint
    · exact isJoint_of_isSpace space
  refine ⟨givesWayBehind_of_joints joint joint' textBlock block, fun tokenClass text cut => ?_⟩
  refine @TokenClass.cut_exchange c c' rest other joint joint' tokenClass textBlock text []
    (fun _ _ ends => ?_) (fun _ _ ends => ?_) cut
  all_goals rcases alike with rfl | space
  · exact ends
  · exact not_isWordPart_of_isSpace space
  · exact ends
  · exact not_isNumberPart_of_isSpace space

end

end Java

end Verbatim
