import Verbatim.Text.Lines

/-! The formatting around tokens: white space, then comments, each followed by white space of its
own. -/

namespace Verbatim

inductive CommentStyle where
  /-- Two slashes and the rest of the line. -/
  | line
  | block
  /-- A block comment that opens with two stars. -/
  | doc
  deriving DecidableEq, Repr

/-- A comment with its delimiters, and the white space behind it. -/
structure Comment where
  style : CommentStyle
  text : String
  gap : String
  deriving DecidableEq, Repr

structure Trivia where
  whitespace : String
  comments : List Comment
  deriving DecidableEq, Repr

namespace Trivia

def empty : Trivia := ⟨"", []⟩

instance : Inhabited Trivia := ⟨empty⟩

def ofWhitespace (whitespace : String) : Trivia := ⟨whitespace, []⟩

def isEmpty (trivia : Trivia) : Bool := trivia.whitespace.isEmpty && trivia.comments.isEmpty

def withWhitespace (trivia : Trivia) (whitespace : String) : Trivia := { trivia with whitespace }

/-! Views. -/

def pieces (trivia : Trivia) : List String :=
  trivia.whitespace :: trivia.comments.flatMap fun comment => [comment.text, comment.gap]

def text (trivia : Trivia) : String := String.join trivia.pieces

def byteCount (trivia : Trivia) : Nat :=
  trivia.pieces.foldr (fun piece count => piece.utf8ByteSize + count) 0

/-- Line breaks in front of the first comment. -/
def newlines (trivia : Trivia) : Nat := trivia.whitespace.toList.count '\n'

/-- The white space right in front of the token. -/
def lastWhitespace (trivia : Trivia) : String :=
  (trivia.comments.getLast?.map Comment.gap).getD trivia.whitespace

/-- The margin of the line that the token starts, if a line break comes before it. -/
def indent (trivia : Trivia) : Option String :=
  if '\n' ∈ trivia.lastWhitespace.toList then some (Text.lastLineIndent trivia.lastWhitespace)
  else none

/-! Cutting trivia off the front of a text. -/

def isSpace (c : Char) : Bool :=
  c = ' ' || c = '\t' || c = '\n' || c = '\r' || c = '\x0c'

/-- The characters up to and with the end of a block comment. -/
def cutBlock : List Char → Option (List Char × List Char)
  | [] => none
  | '*' :: '/' :: rest => some (['*', '/'], rest)
  | c :: rest => (cutBlock rest).map fun (body, rest) => (c :: body, rest)

def blockStyle (text : List Char) : CommentStyle :=
  if "/**".toList.isPrefixOf text && text != "/**/".toList then .doc else .block

/-- A comment at the front of the text, without the white space behind it. -/
def cutComment : List Char → Option (CommentStyle × List Char × List Char)
  | '/' :: '/' :: rest =>
    let body := rest.takeWhile (· ≠ '\n')
    some (.line, '/' :: '/' :: body, rest.dropWhile (· ≠ '\n'))
  | '/' :: '*' :: rest =>
    (cutBlock rest).map fun (body, rest) =>
      (blockStyle ('/' :: '*' :: body), '/' :: '*' :: body, rest)
  | _ => none

theorem cutBlock_append {cs body rest : List Char} (cut : cutBlock cs = some (body, rest)) :
    cs = body ++ rest := by
  induction cs using cutBlock.induct generalizing body rest with
  | case1 => simp [cutBlock] at cut
  | case2 more =>
    simp only [cutBlock, Option.some.injEq, Prod.mk.injEq] at cut
    obtain ⟨rfl, rfl⟩ := cut
    rfl
  | case3 c more other induction =>
    rw [cutBlock] at cut
    · obtain ⟨⟨inner, left⟩, found, pair⟩ := Option.map_eq_some_iff.1 cut
      obtain ⟨rfl, rfl⟩ := Prod.mk.inj pair
      simp [induction found]
    · exact other

theorem cutComment_append {cs text rest : List Char} {style : CommentStyle}
    (cut : cutComment cs = some (style, text, rest)) : cs = text ++ rest := by
  unfold cutComment at cut
  split at cut
  · simp only [Option.some.injEq, Prod.mk.injEq] at cut
    obtain ⟨-, rfl, rfl⟩ := cut
    simp
  · obtain ⟨⟨body, left⟩, found, triple⟩ := Option.map_eq_some_iff.1 cut
    simp only [Prod.mk.injEq] at triple
    obtain ⟨-, rfl, rfl⟩ := triple
    simp [cutBlock_append found]
  · simp at cut

theorem cutComment_length {cs text rest : List Char} {style : CommentStyle}
    (cut : cutComment cs = some (style, text, rest)) : rest.length < cs.length := by
  have nonempty : text ≠ [] := by
    unfold cutComment at cut
    split at cut
    · simp only [Option.some.injEq, Prod.mk.injEq] at cut
      simp [← cut.2.1]
    · obtain ⟨⟨body, left⟩, -, triple⟩ := Option.map_eq_some_iff.1 cut
      simp only [Prod.mk.injEq] at triple
      simp [← triple.2.1]
    · simp at cut
  rw [cutComment_append cut, List.length_append]
  have := List.length_pos_iff.2 nonempty
  omega

/-- All comments at the front of the text, each with the white space behind it. -/
def cutComments (cs : List Char) : List Comment × List Char :=
  match found : cutComment cs with
  | none => ([], cs)
  | some (style, text, rest) =>
    have := cutComment_length found
    have := (List.dropWhile_sublist (l := rest) isSpace).length_le
    let comment := ⟨style, String.ofList text, String.ofList (rest.takeWhile isSpace)⟩
    let (comments, rest) := cutComments (rest.dropWhile isSpace)
    (comment :: comments, rest)
  termination_by cs.length

/-- As much trivia as there is at the front of the text, and what follows it. -/
def cut (cs : List Char) : Trivia × List Char :=
  let (comments, rest) := cutComments (cs.dropWhile isSpace)
  (⟨String.ofList (cs.takeWhile isSpace), comments⟩, rest)

end Trivia

/-! Reading a text that should hold nothing but trivia. -/

/-- The first place that is no trivia. -/
structure TriviaError where
  offset : Nat
  /-- A block comment starts there and never ends. -/
  unterminated : Bool
  deriving DecidableEq, Repr

def TriviaError.message (error : TriviaError) : String :=
  (if error.unterminated then "unterminated comment" else "unexpected input") ++
    " at offset " ++ toString error.offset

def opensBlock (cs : List Char) : Bool := ['/', '*'].isPrefixOf cs

def Trivia.parse (text : String) : Except TriviaError Trivia :=
  let (trivia, rest) := cut text.toList
  if rest.isEmpty then .ok trivia
  else .error ⟨text.utf8ByteSize - Text.byteCount rest, opensBlock rest⟩

end Verbatim
