import Verbatim.Java.Word
import Verbatim.Tree.Node

/-! Cutting a text into tokens. How a token is cut depends on its first character only, never on
what the grammar wants at that place. -/

namespace Verbatim.Java

/-! ## Expectations

A message about a text that cannot be read names what was wanted at the furthest place that any
attempt got to. -/

structure Furthest where
  offset : Nat
  wanted : List String
  deriving DecidableEq, Repr

namespace Furthest

def none : Furthest := ⟨0, []⟩

/-- The further place wins; at the same place everything wanted is kept, once. -/
def join (first second : Furthest) : Furthest :=
  if first.offset < second.offset then second
  else if second.offset < first.offset then first
  else ⟨first.offset, second.wanted.foldl (fun all label => all.insert label) first.wanted⟩

end Furthest

namespace Label

def space : String := "[' ' | '\\t' | '\\n' | '\\r' | '\\u\x7bc\x7d']"
def lineComment : String := "\"//\""
def blockComment : String := "\"/*\""
def lineCommentPart : String := "[^ '\\n']"
def blockCommentEnd : String := "\"*/\""
def anyCharacter : String := "[_]"
def wordStart : String := "[c if c.is_alphabetic() || c == '_' || c == '$']"
def wordPart : String := "[c if c.is_alphanumeric() || c == '_' || c == '$']"
def ellipsis : String := "\"...\""
def methodReference : String := "\"::\""
def arrow : String := "\"->\""
def punctuation : String :=
  "[c if c.is_ascii_punctuation() && !matches!(c, '\"' | '\\'' | '_' | '$')]"
def textBlock : String := "\"\\\"\\\"\\\"\""
def string : String := "\"\\\"\""
def stringPart : String := "[^ '\"' | '\\\\' | '\\n']"
def character : String := "\"'\""
def characterPart : String := "[^ '\\'' | '\\\\' | '\\n']"
def escape : String := "\"\\\\\""
def digit : String := "['0'..='9']"
def numberPart : String := "[c if c.is_ascii_alphanumeric() || c == '_' || c == '.']"

/-- What trivia can start with. -/
def trivia : List String := [space, lineComment, blockComment]

def anyPunctuation : List String := [ellipsis, methodReference, arrow, punctuation]

def anyLiteral : List String := [textBlock, string, character, digit]

end Label

/-! ## Literals -/

def tripleQuote : List Char := ['"', '"', '"']

/-- The characters up to and with the closing quotes of a text block. A backslash protects the
character behind it. -/
def cutTextBlock : List Char → Option (List Char × List Char)
  | [] => none
  | '"' :: '"' :: '"' :: rest => some (tripleQuote, rest)
  | '\\' :: c :: rest => (cutTextBlock rest).map fun (body, rest) => ('\\' :: c :: body, rest)
  | c :: rest => (cutTextBlock rest).map fun (body, rest) => (c :: body, rest)

/-- The longest run of characters that may stand between quotes on one line. -/
def cutQuotedBody (quote : Char) : List Char → List Char × List Char
  | [] => ([], [])
  | '\\' :: c :: rest =>
    let (body, rest) := cutQuotedBody quote rest
    ('\\' :: c :: body, rest)
  | c :: rest =>
    if c = quote || c = '\\' || c = '\n' then ([], c :: rest)
    else
      let (body, rest) := cutQuotedBody quote rest
      (c :: body, rest)

def cutQuoted (quote : Char) (mayBeEmpty : Bool) (cs : List Char) :
    Option (List Char × List Char) :=
  let (body, rest) := cutQuotedBody quote cs
  match rest with
  | c :: rest =>
    if c = quote && (mayBeEmpty || !body.isEmpty) then some (quote :: body ++ [quote], rest)
    else none
  | [] => none

def cutString (cs : List Char) : Option (List Char × List Char) := cutQuoted '"' true cs

def isNumberPart (c : Char) : Bool := c.isAlphanum || c = '_' || c = '.'

/-- A text block that does not end is an empty string with a quote behind it. -/
def cutLiteral : List Char → Option (List Char × List Char)
  | '"' :: '"' :: '"' :: rest =>
    match cutTextBlock rest with
    | some (body, rest) => some (tripleQuote ++ body, rest)
    | none => cutString ('"' :: '"' :: rest)
  | '"' :: rest => cutString rest
  | '\'' :: rest => cutQuoted '\'' false rest
  | c :: rest =>
    if c.isDigit then some (c :: rest.takeWhile isNumberPart, rest.dropWhile isNumberPart) else none
  | [] => none

/-! ## Words and punctuation -/

def cutWord : List Char → Option (List Char × List Char)
  | c :: rest =>
    if isWordStart c then some (c :: rest.takeWhile isWordPart, rest.dropWhile isWordPart) else none
  | [] => none

def isAsciiPunctuation (c : Char) : Bool :=
  ('!' ≤ c && c ≤ '/') || (':' ≤ c && c ≤ '@') || ('[' ≤ c && c ≤ '\x60') ||
    ('\x7b' ≤ c && c ≤ '~')

/-- Quotes start literals, the low line and the dollar sign start words. -/
def isPunctuation (c : Char) : Bool :=
  isAsciiPunctuation c && c ≠ '"' && c ≠ '\'' && c ≠ '_' && c ≠ '$'

def cutPunctuation : List Char → Option (List Char × List Char)
  | '.' :: '.' :: '.' :: rest => some (['.', '.', '.'], rest)
  | ':' :: ':' :: rest => some ([':', ':'], rest)
  | '-' :: '>' :: rest => some (['-', '>'], rest)
  | c :: rest => if isPunctuation c then some ([c], rest) else none
  | [] => none

/-! ## Tokens with their trivia -/

inductive TokenClass where
  | literal
  | word
  | punctuation
  /-- Nothing is left behind the last trivia. -/
  | endOfText
  /-- A character that starts no token. It ends the cutting. -/
  | stray
  deriving DecidableEq, Repr

def cutToken (cs : List Char) : Option (TokenClass × List Char × List Char) :=
  ((cutLiteral cs).map (.literal, ·)) <|> ((cutWord cs).map (.word, ·)) <|>
    ((cutPunctuation cs).map (.punctuation, ·))

structure Lexeme where
  leading : Trivia
  tokenClass : TokenClass
  text : String
  start : Nat
  stop : Nat
  /-- What every attempt wants at this place before it gets to the token. -/
  triviaMarks : Furthest
  /-- What is wanted when a literal is tried here. -/
  literalMarks : Furthest
  deriving DecidableEq, Repr

/-- The shape of a text is the sequence of its tokens without positions and trivia. -/
def Lexeme.shape (lexeme : Lexeme) : TokenClass × String := (lexeme.tokenClass, lexeme.text)

/-! What cutting leaves behind for messages. -/

/-- At a block comment that does not end, its end is wanted at the end of the text; at the end of a
line comment that ends the text, more of the comment. -/
def marksOfTrivia (size start : Nat) (trivia : Trivia) (rest : List Char) : Furthest :=
  if opensBlock rest then ⟨size, [Label.anyCharacter, Label.blockCommentEnd]⟩
  else
    let insideLineComment := rest.isEmpty &&
      trivia.comments.getLast?.any fun comment => comment.style = .line && comment.gap.isEmpty
    ⟨start, if insideLineComment then Label.lineCommentPart :: Label.trivia else Label.trivia⟩

def marksOfQuoted (quote : Char) (closing part : String) (mayBeEmpty : Bool) (start : Nat)
    (cs : List Char) : Furthest :=
  let (body, rest) := cutQuotedBody quote cs
  let stop := start + 1 + Text.byteCount body
  match rest with
  | ['\\'] => ⟨stop + 1, [Label.anyCharacter]⟩
  | _ => ⟨stop, if mayBeEmpty || !body.isEmpty then [Label.escape, part, closing]
      else [Label.escape, part]⟩

def marksOfLiteral (size start : Nat) (cs : List Char) : Furthest :=
  match cutLiteral cs, cs with
  | some (text, _), c :: rest =>
    if c.isDigit then ⟨start + Text.byteCount text, [Label.numberPart]⟩
    else if ['"', '"'].isPrefixOf rest && text.length = 2 then
      ⟨size, [Label.escape, Label.anyCharacter, Label.textBlock]⟩
    else .none
  | none, '"' :: rest => marksOfQuoted '"' Label.string Label.stringPart true start rest
  | none, '\'' :: rest => marksOfQuoted '\'' Label.character Label.characterPart false start rest
  | _, _ => ⟨start, Label.anyLiteral⟩

/-! ## All tokens of a text -/

/-- The tokens of a text of `size` bytes, of which `cs` is left behind `offset`. The last one is the
end of the text or a stray character; `bound` is longer than what is left. -/
def lexemesFrom (size : Nat) : (bound : List Char) → (offset : Nat) → (cs : List Char) → List Lexeme
  | bound, offset, cs =>
    let (trivia, rest) := Trivia.cut cs
    let start := offset + trivia.byteCount
    let lexeme (tokenClass : TokenClass) (text : List Char) : Lexeme :=
      ⟨trivia, tokenClass, String.ofList text, start, start + Text.byteCount text,
        marksOfTrivia size start trivia rest, marksOfLiteral size start rest⟩
    match bound, cutToken rest with
    | _ :: bound, some (tokenClass, text, rest) =>
      lexeme tokenClass text :: lexemesFrom size bound (start + Text.byteCount text) rest
    | _, _ => [lexeme (if rest.isEmpty then .endOfText else .stray) []]

def lexemes (text : String) : List Lexeme :=
  lexemesFrom text.utf8ByteSize (text.toList ++ [' ']) 0 text.toList

end Verbatim.Java
