import Verbatim.Proofs.Java.Running
import Verbatim.Proofs.Java.Tokens

/-! Reading characters. A grammar that cuts its tokens out of the text while it goes, each time with
the class it wants in mind, reads what it reads when the text is cut into tokens beforehand. -/

namespace Verbatim.Java

/-- A piece of a text becomes a node if its spelling is accepted. -/
def takeSpelled (leading : Trivia) (piece : Option (List Char × List Char))
    (accept : String → Option Kind) : Option (Node × List Char) :=
  piece.bind fun (text, rest) => (accept (String.ofList text)).map fun kind =>
    ((Node.token kind (String.ofList text)).withLeading leading, rest)

/-- Taking a token behind its trivia: a piece of the class that is wanted is cut, and then its
spelling is looked at. -/
def takeBehind (leading : Trivia) (behind : List Char) : Wanted → Option (Node × List Char)
  | .keyword word =>
    takeSpelled leading (cutWord behind) fun text => if text = word then some .keyword else none
  | .identifier =>
    takeSpelled leading (cutWord behind) fun text =>
      if isReserved text then none else some .identifier
  | .modifier =>
    takeSpelled leading (cutWord behind) fun text =>
      if modifiers.contains text then some .modifier else none
  | .primitive =>
    takeSpelled leading (cutWord behind) fun text =>
      if primitiveTypes.contains text then some .keyword else none
  | .punctuation wanted =>
    takeSpelled leading (cutPunctuation behind) fun text =>
      if text = wanted then some .punctuation else none
  | .plain =>
    takeSpelled leading (cutLiteral behind) (fun _ => some .literal) <|>
      takeSpelled leading (cutWord behind) (fun text => some (wordKind text)) <|>
      takeSpelled leading (cutPunctuation behind) fun text =>
        if isBracket text then none else some .punctuation
  | .endOfText =>
    if behind.isEmpty then some ((Node.token .endOfFile "").withLeading leading, []) else none

/-- Taking a token off the front of a text, its trivia included. -/
def takeCharacters : Take (List Char) := fun wanted cs =>
  takeBehind (Trivia.cut cs).1 (Trivia.cut cs).2 wanted

/-- The file that a text reads as, if it does, and what is left of the text. -/
def ReadsFile (text : String) (reading : Reading (List Char)) : Prop :=
  Reads takeCharacters Rule.body (.rule .compilationUnit) text.toList reading

/-! ## Tokens cut beforehand -/

theorem takeSpelled_none (leading : Trivia) (accept : String → Option Kind) :
    takeSpelled leading none accept = none := rfl

theorem takeSpelled_some (leading : Trivia) (text rest : List Char)
    (accept : String → Option Kind) :
    takeSpelled leading (some (text, rest)) accept =
      (accept (String.ofList text)).map fun kind =>
        ((Node.token kind (String.ofList text)).withLeading leading, rest) := rfl

theorem takeCharacters_of_cutToken {cs text rest : List Char} {lexeme : Lexeme}
    (leading : lexeme.leading = (Trivia.cut cs).1)
    (found : cutToken (Trivia.cut cs).2 = some (lexeme.tokenClass, text, rest))
    (spelling : lexeme.text = String.ofList text) (wanted : Wanted) :
    takeCharacters wanted cs =
      (wanted.accepts lexeme).map fun kind => (lexeme.node kind, rest) := by
  have cut := cutToken_eq_some_iff.1 found
  have notEmpty : (Trivia.cut cs).2.isEmpty = false := by
    rcases cutToken_append found with ⟨equal, nonempty⟩
    cases text with
    | nil => exact absurd rfl nonempty
    | cons first more => rw [equal]; rfl
  rw [takeCharacters]
  simp only [Lexeme.node, leading, spelling]
  cases tokenClass : lexeme.tokenClass with
  | literal =>
      rw [tokenClass] at cut
      have literal : cutLiteral (Trivia.cut cs).2 = some (text, rest) := cut
      have word : cutWord (Trivia.cut cs).2 = none :=
        TokenClass.cut_eq_none_of_ne .word (by decide) cut
      have punctuation : cutPunctuation (Trivia.cut cs).2 = none :=
        TokenClass.cut_eq_none_of_ne .punctuation (by decide) cut
      cases wanted <;>
        simp [takeBehind, literal, word, punctuation, takeSpelled_none, takeSpelled_some, notEmpty,
          Wanted.accepts, tokenClass]
  | word =>
      rw [tokenClass] at cut
      have literal : cutLiteral (Trivia.cut cs).2 = none :=
        TokenClass.cut_eq_none_of_ne .literal (by decide) cut
      have word : cutWord (Trivia.cut cs).2 = some (text, rest) := cut
      have punctuation : cutPunctuation (Trivia.cut cs).2 = none :=
        TokenClass.cut_eq_none_of_ne .punctuation (by decide) cut
      cases wanted <;>
        simp [takeBehind, literal, word, punctuation, takeSpelled_none, takeSpelled_some, notEmpty,
          Wanted.accepts, tokenClass, spelling]
  | punctuation =>
      rw [tokenClass] at cut
      have literal : cutLiteral (Trivia.cut cs).2 = none :=
        TokenClass.cut_eq_none_of_ne .literal (by decide) cut
      have word : cutWord (Trivia.cut cs).2 = none :=
        TokenClass.cut_eq_none_of_ne .word (by decide) cut
      have punctuation : cutPunctuation (Trivia.cut cs).2 = some (text, rest) := cut
      cases wanted <;>
        simp [takeBehind, literal, word, punctuation, takeSpelled_none, takeSpelled_some, notEmpty,
          Wanted.accepts, tokenClass, spelling]
  | endOfText =>
      rw [tokenClass] at cut
      cases cut
  | stray =>
      rw [tokenClass] at cut
      cases cut

theorem takeCharacters_of_cutToken_none {cs : List Char}
    (missing : cutToken (Trivia.cut cs).2 = none) {wanted : Wanted} (inside : wanted ≠ .endOfText) :
    takeCharacters wanted cs = none := by
  have literal : cutLiteral (Trivia.cut cs).2 = none := cutToken_eq_none_iff.1 missing .literal
  have word : cutWord (Trivia.cut cs).2 = none := cutToken_eq_none_iff.1 missing .word
  have punctuation : cutPunctuation (Trivia.cut cs).2 = none :=
    cutToken_eq_none_iff.1 missing .punctuation
  rw [takeCharacters]
  cases wanted <;> simp_all [takeBehind, takeSpelled_none]

theorem accepts_of_isEmpty {lexeme : Lexeme} {rest : List Char}
    (tokenClass : lexeme.tokenClass = (if rest.isEmpty then .endOfText else .stray))
    (wanted : Wanted) : wanted.accepts lexeme =
      if wanted = .endOfText ∧ rest.isEmpty then some .endOfFile else none := by
  cases empty : rest.isEmpty with
  | true =>
      rw [empty] at tokenClass
      cases wanted <;> simp_all [Wanted.accepts]
  | false =>
      rw [empty] at tokenClass
      cases wanted <;> simp_all [Wanted.accepts]

/-- The tokens that a text was cut into are taken as they are taken off the text, as far as it is
not about the end. -/
theorem takeLexeme_agree_takeCharacters :
    Agree takeLexeme takeCharacters (fun wanted => decide (wanted ≠ .endOfText)) id
      (fun tokens cs => CutInto cs tokens) where
  token := by
    intro wanted tokens cs inside cut
    rw [decide_eq_true_eq] at inside
    cases cut with
    | @token _ text rest lexeme others leading found spelling left =>
        rw [takeCharacters_of_cutToken leading found spelling, takeLexeme]
        cases wanted.accepts lexeme with
        | none => exact .none
        | some kind => exact .some rfl left
    | @last _ lexeme leading missing tokenClass spelling =>
        rw [takeCharacters_of_cutToken_none missing inside, takeLexeme,
          accepts_of_isEmpty tokenClass, if_neg fun both => inside both.1]
        exact .none
  grow := by
    intro kind nodes others same
    rw [List.map_id, List.map_id] at same
    rw [same]

/-! ## Files -/

theorem only_body (name : Rule) : decide (name ≠ .compilationUnit) = true →
    (Rule.body name).Only (fun wanted => decide (wanted ≠ .endOfText))
      (fun other => decide (other ≠ .compilationUnit)) = true := by
  cases name <;> decide

theorem takeCharacters_endOfText {cs : List Char} {tokens : List Lexeme} (cut : CutInto cs tokens) :
    takeCharacters .endOfText cs =
      (takeLexeme .endOfText tokens).map fun (node, _) => (node, []) := by
  cases cut with
  | @token _ text rest lexeme others leading found spelling left =>
      have refused : Wanted.endOfText.accepts lexeme = none := by
        have cut := cutToken_eq_some_iff.1 found
        cases tokenClass : lexeme.tokenClass with
        | endOfText => rw [tokenClass] at cut; cases cut
        | stray => rw [tokenClass] at cut; cases cut
        | literal => simp [Wanted.accepts, tokenClass]
        | word => simp [Wanted.accepts, tokenClass]
        | punctuation => simp [Wanted.accepts, tokenClass]
      rw [takeCharacters_of_cutToken leading found spelling, takeLexeme, refused]
      rfl
  | @last _ lexeme leading missing tokenClass spelling =>
      rw [takeLexeme, accepts_of_isEmpty tokenClass, takeCharacters, takeBehind]
      cases (Trivia.cut cs).2.isEmpty with
      | false => rfl
      | true => simp [Lexeme.node, leading, spelling]

/-- The grammar reads up to the end of the text, and the same from characters as from tokens. -/
def ReadsToEnd (grammar : Grammar Rule) : Prop :=
  ∀ {cs : List Char} {tokens : List Lexeme} {reading : Reading (List Lexeme)},
    CutInto cs tokens → Reads takeLexeme Rule.body grammar tokens reading →
    Reads takeCharacters Rule.body grammar cs (reading.map fun (nodes, _) => (nodes, []))

theorem ReadsToEnd.endOfText : ReadsToEnd (.token .endOfText) := by
  intro cs tokens reading cut reads
  have fits : Reads takeCharacters Rule.body (.token .endOfText) cs _ := .token
  cases reads
  rw [takeCharacters_endOfText cut, Option.map_map] at fits
  rw [Option.map_map]
  exact fits

theorem ReadsToEnd.seq {first second : Grammar Rule}
    (inside : first.Only (fun wanted => decide (wanted ≠ .endOfText))
      (fun other => decide (other ≠ .compilationUnit)) = true)
    (toEnd : ReadsToEnd second) : ReadsToEnd (.seq first second) := by
  intro cs tokens reading cut reads
  cases reads with
  | seqNone firstReads =>
      rcases firstReads.transfer takeLexeme_agree_takeCharacters only_body inside cut with
        ⟨_, firstFits, ⟨⟩⟩
      exact .seqNone firstFits
  | @seq _ _ _ rest nodes reading firstReads secondReads =>
      rcases firstReads.transfer takeLexeme_agree_takeCharacters only_body inside cut with
        ⟨_, firstFits, ⟨⟩ | ⟨same, left⟩⟩
      rw [List.map_id, List.map_id] at same
      subst same
      have both := Reads.seq firstFits (toEnd left secondReads)
      cases reading with
      | none => exact both
      | some pair => exact both

theorem ReadsToEnd.branch {kind : Kind} {part : Grammar Rule} (toEnd : ReadsToEnd part) :
    ReadsToEnd (.branch kind part) := by
  intro cs tokens reading cut reads
  cases reads with
  | @branch _ _ _ reading partReads =>
      have fits : Reads takeCharacters Rule.body (.branch kind part) cs _ :=
        .branch (toEnd cut partReads)
      cases reading with
      | none => exact fits
      | some pair => exact fits

theorem compilationUnit_readsToEnd : ReadsToEnd (Rule.body .compilationUnit) :=
  ReadsToEnd.branch (ReadsToEnd.seq (by decide) (ReadsToEnd.seq (by decide)
    (ReadsToEnd.seq (by decide) ReadsToEnd.endOfText)))

theorem readsFile_readTokens (text : String) :
    ReadsFile text ((readTokens (lexemes text)).result.map fun (nodes, _) => (nodes, [])) := by
  have reads := readTokens_reads (lexemes text)
  generalize (readTokens (lexemes text)).result = result at reads
  cases reads with
  | rule bodyReads => exact .rule (compilationUnit_readsToEnd (lexemes_cutInto text) bodyReads)

end Verbatim.Java
