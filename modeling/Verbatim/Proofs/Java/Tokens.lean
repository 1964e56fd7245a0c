import Verbatim.Java.Lexeme

/-! How a text falls into tokens. The first character of a token tells its class, so a token is the
same wherever a grammar looks for it; and trivia and tokens together are the whole text. -/

namespace Verbatim.Java

/-! ## First characters -/

/-- Quotes and digits. -/
def startsLiteral (c : Char) : Bool := c = '"' || c = '\'' || c.isDigit

theorem ascii_of_forall (property : Char → Bool)
    (tested : ∀ number : Fin 128, property (Char.ofNat number) = true) {c : Char}
    (ascii : c.val < 0x80) : property c = true := by
  have bound : c.toNat < 128 := UInt32.lt_iff_toNat_lt.1 ascii
  have found := tested ⟨c.toNat, bound⟩
  rwa [Char.ofNat_toNat] at found

theorem isAscii_of_startsLiteral {c : Char} (starts : startsLiteral c = true) :
    c.val < 0x80 := by
  simp only [startsLiteral, Bool.or_eq_true, decide_eq_true_eq, Char.isDigit,
    Bool.and_eq_true] at starts
  rcases starts with (rfl | rfl) | ⟨-, le⟩
  · decide
  · decide
  · rw [UInt32.lt_iff_toNat_lt]
    exact Nat.lt_of_le_of_lt (UInt32.le_iff_toNat_le.1 le) (by decide)

theorem isAscii_of_isPunctuation {c : Char} (punctuation : isPunctuation c = true) :
    c.val < 0x80 := by
  simp only [isPunctuation, isAsciiPunctuation, Bool.and_eq_true, Bool.or_eq_true,
    decide_eq_true_eq, Char.le_def, UInt32.le_iff_toNat_le] at punctuation
  have bound : c.val.toNat ≤ 126 := by
    rcases punctuation.1.1.1.1 with ((⟨-, le⟩ | ⟨-, le⟩) | ⟨-, le⟩) | ⟨-, le⟩ <;>
      exact Nat.le_trans le (by decide)
  rw [UInt32.lt_iff_toNat_lt]
  exact Nat.lt_of_le_of_lt bound (by decide)

theorem not_isPunctuation_of_startsLiteral {c : Char} (starts : startsLiteral c = true) :
    isPunctuation c = false := by
  have tested : (!startsLiteral c || !isPunctuation c) = true :=
    ascii_of_forall (fun c => !startsLiteral c || !isPunctuation c)
      (by decide) (isAscii_of_startsLiteral starts)
  simpa [starts] using tested

theorem not_isWordStart_of_startsLiteral {c : Char} (starts : startsLiteral c = true) :
    isWordStart c = false := by
  have tested : (!startsLiteral c || !isWordStart c) = true :=
    ascii_of_forall (fun c => !startsLiteral c || !isWordStart c)
      (by decide) (isAscii_of_startsLiteral starts)
  simpa [starts] using tested

theorem not_isWordStart_of_isPunctuation {c : Char} (punctuation : isPunctuation c = true) :
    isWordStart c = false := by
  have tested : (!isPunctuation c || !isWordStart c) = true :=
    ascii_of_forall (fun c => !isPunctuation c || !isWordStart c)
      (by decide) (isAscii_of_isPunctuation punctuation)
  simpa [punctuation] using tested

/-! ## Cutting loses nothing

A cutter takes a piece off the front of what is left, and it looks at the first character to see
whether there is one. -/

def CutsFront (starts : Char → Bool) (cut : List Char → Option (List Char × List Char)) : Prop :=
  ∀ cs text rest, cut cs = some (text, rest) →
    cs = text ++ rest ∧ ∃ first more, text = first :: more ∧ starts first = true

theorem CutsFront.other_eq_none {starts otherStarts : Char → Bool}
    {cut other : List Char → Option (List Char × List Char)} (cuts : CutsFront starts cut)
    (otherCuts : CutsFront otherStarts other)
    (apart : ∀ c, starts c = true → otherStarts c = false) {cs text rest : List Char}
    (found : cut cs = some (text, rest)) : other cs = none := by
  cases otherFound : other cs with
  | none => rfl
  | some pair =>
      rcases pair with ⟨otherText, otherRest⟩
      rcases cuts cs text rest found with ⟨rfl, first, more, rfl, firstStarts⟩
      rcases otherCuts _ otherText otherRest otherFound with ⟨equal, second, _, rfl, secondStarts⟩
      rw [List.cons_append, List.cons_append, List.cons.injEq] at equal
      rw [← equal.1, apart first firstStarts] at secondStarts
      cases secondStarts

theorem cutTextBlock_append {cs body rest : List Char}
    (cut : cutTextBlock cs = some (body, rest)) : cs = body ++ rest := by
  induction cs using cutTextBlock.induct generalizing body rest with
  | case1 => simp [cutTextBlock] at cut
  | case2 more =>
      simp only [cutTextBlock, Option.some.injEq, Prod.mk.injEq] at cut
      rcases cut with ⟨rfl, rfl⟩
      rfl
  | case3 c more induction =>
      rw [cutTextBlock] at cut
      rcases Option.map_eq_some_iff.1 cut with ⟨⟨inner, left⟩, found, pair⟩
      cases pair
      simp [induction found]
  | case4 c more notQuotes notEscape induction =>
      rw [cutTextBlock] at cut
      · rcases Option.map_eq_some_iff.1 cut with ⟨⟨inner, left⟩, found, pair⟩
        cases pair
        simp [induction found]
      · exact notQuotes
      · exact notEscape

theorem cutQuotedBody_append (quote : Char) (cs : List Char) :
    (cutQuotedBody quote cs).1 ++ (cutQuotedBody quote cs).2 = cs := by
  fun_induction cutQuotedBody quote cs <;> simp_all

theorem cutQuoted_append {quote : Char} {mayBeEmpty : Bool} {cs text rest : List Char}
    (cut : cutQuoted quote mayBeEmpty cs = some (text, rest)) :
    quote :: cs = text ++ rest ∧ ∃ more, text = quote :: more := by
  have whole := cutQuotedBody_append quote cs
  rw [cutQuoted] at cut
  generalize cutQuotedBody quote cs = parts at cut whole
  rcases parts with ⟨body, behind⟩
  cases behind with
  | nil => cases cut
  | cons c more =>
      simp only [Option.ite_none_right_eq_some, Bool.and_eq_true, decide_eq_true_eq,
        Option.some.injEq, Prod.mk.injEq] at cut
      rcases cut with ⟨⟨rfl, -⟩, rfl, rfl⟩
      simp [← whole]

theorem cutLiteral_cutsFront : CutsFront startsLiteral cutLiteral := by
  intro cs text rest cut
  have quoted : ∀ {quote : Char} {mayBeEmpty : Bool} {more : List Char},
      startsLiteral quote = true → cutQuoted quote mayBeEmpty more = some (text, rest) →
      quote :: more = text ++ rest ∧ ∃ first more, text = first :: more ∧
        startsLiteral first = true := by
    intro quote mayBeEmpty more starts found
    rcases cutQuoted_append found with ⟨equal, left, rfl⟩
    exact ⟨equal, quote, left, rfl, starts⟩
  fun_cases cutLiteral cs with
  | case1 block body left found =>
      rw [cutLiteral, found] at cut
      cases cut
      exact ⟨by simp [tripleQuote, cutTextBlock_append found], '"', _, rfl, by decide⟩
  | case2 block missing =>
      rw [cutLiteral, missing] at cut
      exact quoted (by decide) cut
  | case3 more notBlock =>
      rw [cutLiteral] at cut
      · exact quoted (by decide) cut
      · exact notBlock
  | case4 more => exact quoted (by decide) cut
  | case5 c more notBlock notString notCharacter digit =>
      rw [cutLiteral, if_pos digit] at cut
      · cases cut
        exact ⟨by simp, c, _, rfl, by simp [startsLiteral, digit]⟩
      · exact notBlock
      · exact notString
      · exact notCharacter
  | case6 c more notBlock notString notCharacter notDigit =>
      rw [cutLiteral, if_neg notDigit] at cut
      · cases cut
      · exact notBlock
      · exact notString
      · exact notCharacter
  | case7 => cases cut

theorem cutWord_cutsFront : CutsFront isWordStart cutWord := by
  intro cs text rest cut
  cases cs with
  | nil => cases cut
  | cons c more =>
      simp only [cutWord, Option.ite_none_right_eq_some, Option.some.injEq, Prod.mk.injEq] at cut
      rcases cut with ⟨starts, rfl, rfl⟩
      exact ⟨by simp, c, _, rfl, starts⟩

theorem cutPunctuation_cutsFront : CutsFront isPunctuation cutPunctuation := by
  intro cs text rest cut
  fun_cases cutPunctuation cs with
  | case1 more =>
      cases cut
      exact ⟨rfl, '.', _, rfl, by decide⟩
  | case2 more =>
      cases cut
      exact ⟨rfl, ':', _, rfl, by decide⟩
  | case3 more =>
      cases cut
      exact ⟨rfl, '-', _, rfl, by decide⟩
  | case4 c more notEllipsis notReference notArrow punctuation =>
      rw [cutPunctuation, if_pos punctuation] at cut
      · cases cut
        exact ⟨rfl, c, [], rfl, punctuation⟩
      · exact notEllipsis
      · exact notReference
      · exact notArrow
  | case5 c more notEllipsis notReference notArrow notPunctuation =>
      rw [cutPunctuation, if_neg notPunctuation] at cut
      · cases cut
      · exact notEllipsis
      · exact notReference
      · exact notArrow
  | case6 => cases cut

/-! ## The class of a token

What is wanted at a place does not matter: at most one class fits there. -/

namespace TokenClass

/-- How the text of a token of this class is cut. -/
def cut : TokenClass → List Char → Option (List Char × List Char)
  | literal => cutLiteral
  | word => cutWord
  | punctuation => cutPunctuation
  | endOfText | stray => fun _ => none

/-- The characters that the text of such a token starts with. -/
def starts : TokenClass → Char → Bool
  | literal => startsLiteral
  | word => isWordStart
  | punctuation => isPunctuation
  | endOfText | stray => fun _ => false

theorem cutsFront (tokenClass : TokenClass) : CutsFront tokenClass.starts tokenClass.cut := by
  cases tokenClass with
  | literal => exact cutLiteral_cutsFront
  | word => exact cutWord_cutsFront
  | punctuation => exact cutPunctuation_cutsFront
  | endOfText => exact fun _ _ _ found => nomatch found
  | stray => exact fun _ _ _ found => nomatch found

theorem not_starts_of_starts {tokenClass other : TokenClass} (different : tokenClass ≠ other)
    (c : Char) (starts : tokenClass.starts c = true) : other.starts c = false := by
  have word_punctuation : isWordStart c = true → isPunctuation c = false := by
    intro word
    cases punctuation : isPunctuation c with
    | false => rfl
    | true => rw [not_isWordStart_of_isPunctuation punctuation] at word; cases word
  have word_literal : isWordStart c = true → startsLiteral c = false := by
    intro word
    cases literal : startsLiteral c with
    | false => rfl
    | true => rw [not_isWordStart_of_startsLiteral literal] at word; cases word
  have punctuation_literal : isPunctuation c = true → startsLiteral c = false := by
    intro punctuation
    cases literal : startsLiteral c with
    | false => rfl
    | true => rw [not_isPunctuation_of_startsLiteral literal] at punctuation; cases punctuation
  cases tokenClass <;> cases other <;>
    simp_all [TokenClass.starts, not_isWordStart_of_isPunctuation,
      not_isPunctuation_of_startsLiteral, not_isWordStart_of_startsLiteral]

theorem cut_eq_none_of_ne {tokenClass : TokenClass} (other : TokenClass)
    (different : tokenClass ≠ other) {cs text rest : List Char}
    (found : tokenClass.cut cs = some (text, rest)) :
    other.cut cs = none :=
  tokenClass.cutsFront.other_eq_none other.cutsFront (not_starts_of_starts different) found

end TokenClass

theorem cutToken_eq_some_iff {cs text rest : List Char} {tokenClass : TokenClass} :
    cutToken cs = some (tokenClass, text, rest) ↔ tokenClass.cut cs = some (text, rest) := by
  have literal : TokenClass.literal.cut cs = cutLiteral cs := rfl
  have word : TokenClass.word.cut cs = cutWord cs := rfl
  have punctuation : TokenClass.punctuation.cut cs = cutPunctuation cs := rfl
  constructor
  · intro found
    rw [cutToken] at found
    cases literalFound : cutLiteral cs with
    | some pair => simp_all
    | none =>
        cases wordFound : cutWord cs with
        | some pair => simp_all
        | none =>
            cases punctuationFound : cutPunctuation cs with
            | some pair => simp_all
            | none => simp_all
  · intro found
    cases tokenClass with
    | literal => simp [cutToken, ← literal, found]
    | word =>
        have none := TokenClass.cut_eq_none_of_ne .literal (by decide) found
        simp [cutToken, ← literal, ← word, none, found]
    | punctuation =>
        have noLiteral := TokenClass.cut_eq_none_of_ne .literal (by decide) found
        have noWord := TokenClass.cut_eq_none_of_ne .word (by decide) found
        simp [cutToken, ← literal, ← word, ← punctuation, noLiteral, noWord, found]
    | endOfText => cases found
    | stray => cases found

theorem cutToken_eq_none_iff {cs : List Char} :
    cutToken cs = none ↔ ∀ tokenClass : TokenClass, tokenClass.cut cs = none := by
  constructor
  · intro missing tokenClass
    cases found : tokenClass.cut cs with
    | none => rfl
    | some pair =>
        rw [cutToken_eq_some_iff.2 found] at missing
        cases missing
  · intro missing
    cases found : cutToken cs with
    | none => rfl
    | some triple =>
        have cut := cutToken_eq_some_iff.1 found
        rw [missing triple.1] at cut
        cases cut

theorem cutToken_append {cs text rest : List Char} {tokenClass : TokenClass}
    (found : cutToken cs = some (tokenClass, text, rest)) : cs = text ++ rest ∧ text ≠ [] := by
  rcases tokenClass.cutsFront cs text rest (cutToken_eq_some_iff.1 found) with
    ⟨equal, first, more, rfl, -⟩
  exact ⟨equal, List.cons_ne_nil first more⟩

/-! ## Trivia and all tokens -/

theorem cutComments_append (cs : List Char) :
    (String.join ((Trivia.cutComments cs).1.flatMap fun comment =>
      [comment.text, comment.gap])).toList ++ (Trivia.cutComments cs).2 = cs := by
  rw [String.toList_join]
  fun_induction Trivia.cutComments cs with
  | case1 cs missing => rfl
  | case2 cs style text rest found _ _ comment comments left equal induction =>
      rw [equal] at induction
      simp only [List.flatMap_cons, List.flatMap_append, List.flatMap_nil, List.append_nil,
        List.append_assoc] at induction ⊢
      rw [induction, Trivia.cutComment_append found]
      simp [comment]

theorem cutTrivia_append (cs : List Char) :
    (Trivia.cut cs).1.text.toList ++ (Trivia.cut cs).2 = cs := by
  have comments := cutComments_append (cs.dropWhile Trivia.isSpace)
  rw [Trivia.cut, Trivia.text, Trivia.pieces]
  generalize Trivia.cutComments (cs.dropWhile Trivia.isSpace) = parts at comments
  rcases parts with ⟨found, rest⟩
  simp only at comments ⊢
  rw [String.join_cons, String.toList_append, List.append_assoc, comments]
  simp

/-- The tokens that a text falls into: trivia and a token, again and again, up to a place where
there is no token. -/
inductive CutInto : List Char → List Lexeme → Prop
  | token {cs text rest : List Char} {lexeme : Lexeme} {others : List Lexeme} :
      lexeme.leading = (Trivia.cut cs).1 →
      cutToken (Trivia.cut cs).2 = some (lexeme.tokenClass, text, rest) →
      lexeme.text = String.ofList text → CutInto rest others → CutInto cs (lexeme :: others)
  | last {cs : List Char} {lexeme : Lexeme} :
      lexeme.leading = (Trivia.cut cs).1 → cutToken (Trivia.cut cs).2 = none →
      lexeme.tokenClass = (if (Trivia.cut cs).2.isEmpty then .endOfText else .stray) →
      lexeme.text = "" → CutInto cs [lexeme]

theorem lexemesFrom_cutInto (size : Nat) {bound : List Char} {offset : Nat} {cs : List Char}
    (enough : cs.length < bound.length) : CutInto cs (lexemesFrom size bound offset cs) := by
  induction bound generalizing offset cs with
  | nil =>
      rw [List.length_nil] at enough
      omega
  | cons _ bound induction =>
      cases found : cutToken (Trivia.cut cs).2 with
      | none =>
          rw [lexemesFrom]
          simp only [found]
          exact .last rfl found rfl rfl
      | some triple =>
          rcases triple with ⟨tokenClass, text, rest⟩
          have shorter : rest.length < cs.length := by
            rcases cutToken_append found with ⟨equal, nonempty⟩
            have textLength := List.length_pos_iff.2 nonempty
            rw [← cutTrivia_append cs, equal]
            simp only [List.length_append]
            omega
          rw [List.length_cons] at enough
          rw [lexemesFrom]
          simp only [found]
          exact .token rfl found rfl (induction (by omega))

theorem lexemes_cutInto (text : String) : CutInto text.toList (lexemes text) :=
  lexemesFrom_cutInto _ (by simp)

/-- A token with its trivia. -/
def Lexeme.written (lexeme : Lexeme) : String := lexeme.leading.text ++ lexeme.text

theorem CutInto.written {cs : List Char} {tokens : List Lexeme} (cut : CutInto cs tokens)
    (noStray : ∀ token ∈ tokens, token.tokenClass ≠ .stray) :
    (String.join (tokens.map Lexeme.written)).toList = cs := by
  induction cut with
  | @token cs text rest lexeme others leading found spelling left induction =>
      have behind := induction fun token member => noStray token (List.mem_cons_of_mem _ member)
      rw [List.map_cons, String.join_cons, String.toList_append, behind, Lexeme.written, leading,
        spelling, String.toList_append, String.toList_ofList, List.append_assoc,
        ← (cutToken_append found).1, cutTrivia_append]
  | @last cs lexeme leading missing tokenClass spelling =>
      have empty : (Trivia.cut cs).2 = [] := by
        have noStrayHere := noStray lexeme List.mem_cons_self
        rw [tokenClass] at noStrayHere
        cases behind : (Trivia.cut cs).2 with
        | nil => rfl
        | cons first more => simp [behind] at noStrayHere
      have whole := cutTrivia_append cs
      rw [empty, List.append_nil] at whole
      simp [Lexeme.written, leading, spelling, String.join_cons, String.join_nil, whole]

theorem CutInto.classes {cs : List Char} {tokens : List Lexeme} (cut : CutInto cs tokens) :
    ∃ front last, tokens = front ++ [last] ∧
      (last.tokenClass = .endOfText ∨ last.tokenClass = .stray) ∧ last.text = "" ∧
      ∀ token ∈ front, token.tokenClass ≠ .endOfText ∧ token.tokenClass ≠ .stray := by
  induction cut with
  | @token cs text rest lexeme others leading found spelling left induction =>
      rcases induction with ⟨front, last, rfl, lastClass, lastText, classes⟩
      refine ⟨lexeme :: front, last, rfl, lastClass, lastText, ?_⟩
      intro token member
      rcases List.mem_cons.1 member with rfl | member
      · have cut := cutToken_eq_some_iff.1 found
        constructor <;> intro same <;> rw [same] at cut <;> cases cut
      · exact classes token member
  | @last cs lexeme leading found tokenClass spelling =>
      refine ⟨[], lexeme, rfl, ?_, spelling, by simp⟩
      rw [tokenClass]
      split
      · exact .inl rfl
      · exact .inr rfl

end Verbatim.Java
