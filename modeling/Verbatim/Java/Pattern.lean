import Verbatim.Java.Lexeme

/-! Patterns over characters, as a grammar writes them that is not cut into tokens first, and
what it means that they fit. Alternatives are tried in order, and repetitions take as much as
they can. -/

namespace Verbatim.Java

inductive Pattern where
  | character (accepts : Char → Bool)
  | seq (first second : Pattern)
  | choice (first second : Pattern)
  | many (part : Pattern)
  /-- The part does not fit here; nothing is taken. -/
  | notAhead (part : Pattern)

namespace Pattern

def pair (first second : Char) : Pattern :=
  .seq (.character (· = first)) (.character (· = second))

def triple (c : Char) : Pattern := .seq (.character (· = c)) (.pair c c)

def atLeastOnce (part : Pattern) : Pattern := .seq part (.many part)

def any : Pattern := .character fun _ => true

/-- The pattern takes these characters off the front and leaves the others, or it does not fit. -/
inductive Fits : Pattern → List Char → Option (List Char × List Char) → Prop
  | character {accepts : Char → Bool} {c : Char} {rest : List Char} :
      accepts c = true → Fits (.character accepts) (c :: rest) (some ([c], rest))
  | characterNone {accepts : Char → Bool} {cs : List Char} :
      (∀ c rest, cs = c :: rest → accepts c = false) → Fits (.character accepts) cs none
  | seq {first second : Pattern} {cs front rest back left : List Char} :
      Fits first cs (some (front, rest)) → Fits second rest (some (back, left)) →
      Fits (.seq first second) cs (some (front ++ back, left))
  | seqFirstNone {first second : Pattern} {cs : List Char} :
      Fits first cs none → Fits (.seq first second) cs none
  | seqSecondNone {first second : Pattern} {cs front rest : List Char} :
      Fits first cs (some (front, rest)) → Fits second rest none →
      Fits (.seq first second) cs none
  | choiceFirst {first second : Pattern} {cs : List Char} {found : List Char × List Char} :
      Fits first cs (some found) → Fits (.choice first second) cs (some found)
  | choiceSecond {first second : Pattern} {cs : List Char}
      {result : Option (List Char × List Char)} :
      Fits first cs none → Fits second cs result → Fits (.choice first second) cs result
  | manyEnd {part : Pattern} {cs : List Char} :
      Fits part cs none → Fits (.many part) cs (some ([], cs))
  | manyMore {part : Pattern} {cs front rest back left : List Char} :
      Fits part cs (some (front, rest)) → Fits (.many part) rest (some (back, left)) →
      Fits (.many part) cs (some (front ++ back, left))
  | notAhead {part : Pattern} {cs : List Char} :
      Fits part cs none → Fits (.notAhead part) cs (some ([], cs))
  | notAheadNone {part : Pattern} {cs : List Char} {found : List Char × List Char} :
      Fits part cs (some found) → Fits (.notAhead part) cs none

end Pattern

/-! ## Trivia -/

def spaceCharacters : List Char := [' ', '\t', '\n', '\r', '\x0c']

def spacePattern : Pattern := .atLeastOnce (.character fun c => c ∈ spaceCharacters)

def linePattern : Pattern := .seq (.pair '/' '/') (.many (.character (· ≠ '\n')))

/-- Any characters up to the first star in front of a slash. -/
def blockPattern : Pattern :=
  .seq (.pair '/' '*')
    (.seq (.many (.seq (.notAhead (.pair '*' '/')) (.character fun _ => true))) (.pair '*' '/'))

def piecePattern : Pattern := .choice spacePattern (.choice linePattern blockPattern)

/-- The characters that the grammar takes for trivia. -/
def triviaPattern : Pattern := .many piecePattern

/-! ## Tokens -/

def wordPattern : Pattern := .seq (.character isWordStart) (.many (.character isWordPart))

def punctuationPattern : Pattern :=
  .choice (.triple '.')
    (.choice (.pair ':' ':') (.choice (.pair '-' '>') (.character isPunctuation)))

/-- A backslash with the character that it protects. -/
def escapePattern : Pattern := .seq (.character (· = '\\')) .any

def textBlockPattern : Pattern :=
  .seq (.triple '"')
    (.seq (.many (.seq (.notAhead (.triple '"')) (.choice escapePattern .any))) (.triple '"'))

/-- What may stand between quotes on one line. -/
def quotedPattern (quote : Char) : Pattern :=
  .choice escapePattern (.character fun c => c ≠ quote && c ≠ '\\' && c ≠ '\n')

def stringPattern : Pattern :=
  .seq (.character (· = '"')) (.seq (.many (quotedPattern '"')) (.character (· = '"')))

def characterPattern : Pattern :=
  .seq (.character (· = '\''))
    (.seq (.atLeastOnce (quotedPattern '\'')) (.character (· = '\'')))

def numberPattern : Pattern := .seq (.character (·.isDigit)) (.many (.character isNumberPart))

def literalPattern : Pattern :=
  .choice textBlockPattern (.choice stringPattern (.choice characterPattern numberPattern))

/-- Nothing is left. -/
def endPattern : Pattern := .notAhead .any

/-- What the grammar takes characters with: trivia, and the tokens behind them. -/
def patterns : List Pattern :=
  [triviaPattern, wordPattern, punctuationPattern, literalPattern, endPattern]

end Verbatim.Java
