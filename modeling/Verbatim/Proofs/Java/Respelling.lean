import Verbatim.Proofs.Java.Inserting

/-! Texts with other words in the places of words. No word ends a comment or a text block that is
opened in front of it, so a text falls into the same tokens whatever its words are; only directly
behind a number must no word begin as the number could go on. -/

namespace Verbatim.Java

/-! ## Tokens with other words -/

/-- The same token, or another word in the place of a word. -/
structure Respelled (token other : Lexeme) : Prop where
  leading : other.leading = token.leading
  tokenClass : other.tokenClass = token.tokenClass
  text : other.text = token.text ∨ token.tokenClass = .word ∧ isWord other.text.toList = true

/-- A text that starts as a number does is not gone on with. -/
def EndsNumber (number : List Char) (token : Lexeme) : Prop :=
  number.head?.any Char.isDigit = true → token.leading.text = "" →
    token.text.toList.head?.any isNumberPart = false

/-- The second token does not go on with the first one if that is a number. -/
def Lexeme.Apart (first second : Lexeme) : Prop := EndsNumber first.text.toList second

theorem tokenClass_of_digit {tokenClass : TokenClass} {text rest : List Char}
    (cut : tokenClass.cut (text ++ rest) = some (text, rest))
    (digit : text.head?.any Char.isDigit = true) : tokenClass = .literal := by
  rcases tokenClass.cutsFront _ _ _ cut with ⟨-, first, more, rfl, starts⟩
  have literal : startsLiteral first = true := by
    rw [startsLiteral, show first.isDigit = true from digit, Bool.or_true]
  by_contra other
  rw [TokenClass.not_starts_of_starts (Ne.symm other) first literal] at starts
  cases starts

theorem not_isNumberPart_behind {text rest more : List Char} {c : Char}
    (cut : cutLiteral (text ++ rest) = some (text, rest))
    (digit : text.head?.any Char.isDigit = true) (equal : rest = c :: more) :
    isNumberPart c = false := by
  cases text with
  | nil => cases digit
  | cons first text =>
      have isDigit : first.isDigit = true := digit
      rw [List.cons_append, cutLiteral, if_pos isDigit, Option.some.injEq, Prod.mk.injEq,
        List.cons.injEq] at cut
      · exact (Text.takeWhile_append_eq_iff.1 cut.1.2).2 c more equal
      all_goals
        intros
        subst_vars
        exact absurd isDigit (by decide)

theorem FallsApart.isChain {tokens : List Lexeme} (apart : FallsApart tokens) :
    tokens.IsChain Lexeme.Apart := by
  induction tokens with
  | nil => exact .nil
  | cons token tokens induction =>
      cases tokens with
      | nil => exact .singleton _
      | cons next tokens =>
          rw [FallsApart, charactersOf_cons] at apart
          rcases (CutInto.cons_iff (List.cons_ne_nil _ _)).1 apart with ⟨-, found, behind⟩
          refine .cons_cons (fun digit nothing => ?_) (induction behind)
          rw [tokenClass_of_digit found digit, charactersOf_cons, nothing] at found
          cases text : next.text.toList with
          | nil => rfl
          | cons c more =>
              rw [text] at found
              exact not_isNumberPart_behind found digit rfl

theorem unended_parts {old new : List Char} (oldParts : ∀ c ∈ old, isWordPart c = true)
    (newParts : ∀ c ∈ new, isWordPart c = true) (rest : List Char) :
    (cutTextBlock (old ++ rest) = none → cutTextBlock (new ++ rest) = none) ∧
      (Trivia.cutBlock (old ++ rest) = none → Trivia.cutBlock (new ++ rest) = none) := by
  have oldJoints := fun c member => isJoint_of_isWordPart (oldParts c member)
  have newJoints := fun c member => isJoint_of_isWordPart (newParts c member)
  rw [cutTextBlock_joints oldJoints, cutTextBlock_joints newJoints, cutBlock_joints oldJoints,
    cutBlock_joints newJoints]
  exact ⟨id, id⟩

section

variable {old new rest : List Char} (oldWord : isWord old = true) (newWord : isWord new = true)

include oldWord newWord

theorem givesWayBehind_words : GivesWayBehind (old ++ rest) (new ++ rest) := by
  rcases isWord_iff.1 oldWord with ⟨c, old, rfl, -, oldParts⟩
  rcases isWord_iff.1 newWord with ⟨c', new, rfl, -, newParts⟩
  rw [List.forall_mem_cons] at oldParts newParts
  have unended := unended_parts oldParts.2 newParts.2 rest
  exact givesWayBehind_of_joints (isJoint_of_isWordPart oldParts.1)
    (isJoint_of_isWordPart newParts.1)
    unended.1 unended.2

theorem cutTrivia_words {leading : Trivia}
    (cut : Trivia.cut (leading.text.toList ++ (old ++ rest)) = (leading, old ++ rest)) :
    Trivia.cut (leading.text.toList ++ (new ++ rest)) = (leading, new ++ rest) := by
  rcases isWord_iff.1 oldWord with ⟨first, old, rfl, -, -⟩
  rcases isWord_iff.1 newWord with ⟨c, new, rfl, -, parts⟩
  have part := (List.forall_mem_cons.1 parts).1
  have notSlash := (isJoint_iff.1 (isJoint_of_isWordPart part)).2.2.2.1
  refine @cutTrivia_exchange (first :: old ++ rest) (c :: new ++ rest)
    (fun _ => cutComment_of_noSlash fun _ _ equal => ?_) (.inr fun _ _ equal => ?_) _ _ nofun cut
  · rwa [← (List.cons.inj equal).1]
  · rw [← (List.cons.inj equal).1, ← Bool.not_eq_true]
    intro isSpace
    rw [not_isWordPart_of_isSpace isSpace] at part
    cases part

theorem TokenClass.cut_words {tokenClass : TokenClass} {text : List Char}
    (ends : text.head?.any Char.isDigit = true → new.head?.any isNumberPart = false)
    (cut : tokenClass.cut (text ++ (old ++ rest)) = some (text, old ++ rest)) :
    tokenClass.cut (text ++ (new ++ rest)) = some (text, new ++ rest) := by
  rcases isWord_iff.1 oldWord with ⟨c, old, rfl, -, oldParts⟩
  rcases isWord_iff.1 newWord with ⟨c', new, rfl, -, newParts⟩
  rw [List.forall_mem_cons] at oldParts newParts
  refine @TokenClass.cut_exchange c c' (old ++ rest) (new ++ rest)
    (isJoint_of_isWordPart oldParts.1)
    (isJoint_of_isWordPart newParts.1) tokenClass
      (unended_parts oldParts.2 newParts.2 rest).1 text []
    (fun _ _ ends => ?_) (fun _ digit _ => ends digit) cut
  rw [oldParts.1] at ends
  cases ends

end

/-! ## Texts with other words -/

namespace Respelled

variable {token other : Lexeme} {rest : List Char} (respelled : Respelled token other)
  (found : token.tokenClass.cut (token.text.toList ++ rest) = some (token.text.toList, rest))

include respelled found

theorem endsNumber {next : Lexeme} (ends : EndsNumber other.text.toList next) :
    EndsNumber token.text.toList next := by
  rcases respelled.text with text | ⟨isWord, -⟩
  · rwa [text] at ends
  · intro digit
    rw [tokenClass_of_digit found digit] at isWord
    cases isWord

theorem cut : other.tokenClass.cut (other.text.toList ++ rest) =
    some (other.text.toList, rest) := by
  rw [respelled.tokenClass]
  rcases respelled.text with text | ⟨isWord, newWord⟩
  · rwa [text]
  · rw [isWord] at found ⊢
    exact cutWord_eq_some_iff.2 ⟨newWord, (cutWord_eq_some_iff.1 found).2⟩

theorem cutTrivia
    (trivia : Trivia.cut (token.leading.text.toList ++ (token.text.toList ++ rest)) =
      (token.leading, token.text.toList ++ rest)) :
    Trivia.cut (other.leading.text.toList ++ (other.text.toList ++ rest)) =
      (other.leading, other.text.toList ++ rest) := by
  rw [respelled.leading]
  rcases respelled.text with text | ⟨isWord, newWord⟩
  · rwa [text]
  · rw [isWord] at found
    exact cutTrivia_words (cutWord_eq_some_iff.1 found).1 newWord trivia

theorem givesWay : GivesWayBehind (token.text.toList ++ rest) (other.text.toList ++ rest) := by
  rcases respelled.text with text | ⟨isWord, newWord⟩
  · rw [text]
    exact (GivesWay.refl _).toGivesWayBehind
  · rw [isWord] at found
    exact givesWayBehind_words (cutWord_eq_some_iff.1 found).1 newWord

theorem cut_front {tokenClass : TokenClass} {text : List Char} (ends : EndsNumber text other)
    (front : tokenClass.cut (text ++ (token.leading.text.toList ++ (token.text.toList ++ rest))) =
      some (text, token.leading.text.toList ++ (token.text.toList ++ rest))) :
    tokenClass.cut (text ++ (other.leading.text.toList ++ (other.text.toList ++ rest))) =
      some (text, other.leading.text.toList ++ (other.text.toList ++ rest)) := by
  rw [respelled.leading]
  by_cases nothing : token.leading.text = ""
  · rw [nothing] at front ⊢
    rcases respelled.text with text | ⟨isWord, newWord⟩
    · rwa [text]
    · rw [isWord] at found
      exact TokenClass.cut_words (cutWord_eq_some_iff.1 found).1 newWord
        (fun digit => ends digit (respelled.leading ▸ nothing)) front
  · exact (respelled.givesWay found).tokens tokenClass text _
      (fun empty => nothing (String.toList_eq_nil_iff.1 empty)) front

end Respelled

theorem FallsApart.respelled_last {token other : Lexeme} (apart : FallsApart [token])
    (respelled : Respelled token other) :
    FallsApart [other] ∧ charactersOf [other] = charactersOf [token] := by
  generalize whole : charactersOf [token] = cs
  rw [FallsApart, whole] at apart
  cases apart with
  | token _ _ _ behind => exact absurd rfl behind.ne_nil
  | last leading missing tokenClass spelling =>
      have noWord : token.tokenClass ≠ .word := by
        rw [tokenClass]
        split <;> decide
      have text : other.text = token.text :=
        respelled.text.resolve_right fun isWord => noWord isWord.1
      have characters : charactersOf [other] = cs := by
        rw [← whole, charactersOf_cons, charactersOf_cons, respelled.leading, text]
      rw [FallsApart, characters]
      exact ⟨.last (respelled.leading.trans leading) missing (respelled.tokenClass.trans tokenClass)
        (text.trans spelling), rfl⟩

/-- With other words a text falls into the tokens that it is put together from, as long as none
of them goes on with a number. -/
theorem FallsApart.respelled {tokens others : List Lexeme} (apart : FallsApart tokens)
    (respelled : List.Forall₂ Respelled tokens others) (ends : others.IsChain Lexeme.Apart) :
    FallsApart others ∧ GivesWayBehind (charactersOf tokens) (charactersOf others) ∧
      ∀ (tokenClass : TokenClass) text, (∀ first ∈ others.head?, EndsNumber text first) →
        tokenClass.cut (text ++ charactersOf tokens) = some (text, charactersOf tokens) →
          tokenClass.cut (text ++ charactersOf others) = some (text, charactersOf others) := by
  induction respelled with
  | nil => exact absurd rfl apart.ne_nil
  | @cons token other tokens others here later induction =>
      cases later with
      | nil =>
          rcases apart.respelled_last here with ⟨again, same⟩
          rw [same]
          exact ⟨again, (GivesWay.refl _).toGivesWayBehind, fun _ _ _ cut => cut⟩
      | @cons next next' tokens others near later =>
          rw [FallsApart, charactersOf_cons] at apart
          rcases (CutInto.cons_iff (List.cons_ne_nil _ _)).1 apart with ⟨trivia, found, behind⟩
          rw [List.isChain_cons_cons] at ends
          rcases induction behind ends.2 with ⟨apartBehind, gives, cuts⟩
          have nonempty : token.text.toList ≠ [] :=
            (cutToken_append (cutToken_eq_some_iff.2 found)).2
          have kept := gives.trivia _ _ _ nonempty trivia
          have again :=
            cuts _ _ (fun first same => here.endsNumber found (by cases same; exact ends.1))
            found
          -- first what stands behind the token is exchanged, then the token itself
          have stays := (GivesWay.of_behind gives nonempty).prepend token.leading.text.toList
          rw [FallsApart, charactersOf_cons other, charactersOf_cons token]
          refine ⟨(CutInto.cons_iff (List.cons_ne_nil _ _)).2 ⟨here.cutTrivia again kept,
            here.cut again, apartBehind⟩, stays.toGivesWayBehind.trans ?_,
            fun tokenClass text first cut =>
              here.cut_front again (first other rfl) (stays.directly tokenClass text cut)⟩
          rw [here.leading]
          exact (here.givesWay again).prepend _

end Verbatim.Java
