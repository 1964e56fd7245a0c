import Verbatim.Proofs.Java.Enlarging
import Verbatim.Proofs.Java.Importing

/-! Fields that are made: how they are laid out, what tokens they are printed as, and that these
tokens are read as the field at any place where a member can stand. -/

namespace Verbatim

open Node

namespace Java

variable {leading name : String} {tokens : List Lexeme}

def fieldLexemes (leading name : String) : List Lexeme :=
  [.made leading .word "int", .made " " .word name, .made "" .punctuation ";"]

/-! ## The text of a field -/

section

variable (space : ∀ c ∈ leading.toList, Trivia.isSpace c = true) (word : isWord name.toList = true)

include space word

theorem fallsApart_field (apart : FallsApart tokens) :
    FallsApart (fieldLexemes leading name ++ tokens) := by
  have semicolon : FallsApart (.made "" .punctuation ";" :: tokens) :=
    apart.mark (fun _ absent => absurd absent List.not_mem_nil) rfl (by decide)
      (by decide) (by decide)
      (by decide) fun isDot => absurd isDot (by decide)
  have named : FallsApart (.made " " .word name :: .made "" .punctuation ";" :: tokens) :=
    semicolon.word isSpace_blank word fun c more equal => by
      rw [charactersOf_made] at equal
      rw [← (List.cons.inj equal).1]
      decide
  refine named.word space (by decide) fun c more equal => ?_
  rw [List.append_eq, List.cons_append, charactersOf_made] at equal
  rw [← (List.cons.inj equal).1]
  decide

theorem unended_field :
    (cutTextBlock (charactersOf (fieldLexemes leading name ++ tokens)) = none ↔
      cutTextBlock (charactersOf tokens) = none) ∧
    (Trivia.cutBlock (charactersOf (fieldLexemes leading name ++ tokens)) = none ↔
      Trivia.cutBlock (charactersOf tokens) = none) := by
  have plain : ∀ c ∈ leading.toList ++ ("int".toList ++ (" ".toList ++ name.toList)),
      c ≠ '"' ∧ c ≠ '/' := by
    simp only [List.forall_mem_append]
    refine ⟨fun c inLeading => ?_, by simp, by simp, plain_of_segment (.inr word)⟩
    have isSpace := space c inLeading
    constructor <;> rintro rfl <;> exact absurd isSpace (by decide)
  have whole : charactersOf (fieldLexemes leading name ++ tokens) =
      (leading.toList ++ ("int".toList ++ (" ".toList ++ name.toList))) ++
        ';' :: charactersOf tokens := by
    rw [fieldLexemes, List.cons_append, List.cons_append, List.cons_append, List.nil_append,
      charactersOf_made, charactersOf_made, charactersOf_made]
    simp
  rw [whole]
  exact unended_behind (by decide) plain _

theorem insertable_field : Insertable (fieldLexemes leading name) :=
  ⟨fallsApart_field space word, fun _ => (unended_field space word).1,
    fun _ => (unended_field space word).2⟩

end

/-! ## Its layout -/

/-- A field as it is printed behind white space. -/
def laidField (leading name : String) : Node :=
  (Node.branch .variableDecl
    [(Node.branch .typeRef [(Node.token .keyword "int").withLeading .empty]).withLeading .empty,
      (Node.branch .declarator [(Node.token .identifier name).withLeading .empty]).withLeading
        (.ofWhitespace " "),
      (Node.token .punctuation ";").withLeading .empty]).withLeading (.ofWhitespace leading)

theorem laysOut_field {page : Printer.Page} {place : Option Layout.Place}
    (decided : Layout.leading (Made.intField name) place page.blockIndent = .ok leading) :
    Printer.LaysOut page place (Made.intField name) (laidField leading name) := by
  have single {page : Printer.Page} {place : Option Layout.Place}
      {kind token : Kind} {text leading : String}
      (noBlock : kind ≠ .block) (known : token = .keyword ∨ token = .identifier)
      (decided : Layout.leading (Node.branch kind [Node.token token text]) place page.blockIndent =
        .ok leading) :
      Printer.LaysOut page place (Node.branch kind [Node.token token text])
        ((Node.branch kind [(Node.token token text).withLeading .empty]).withLeading
          (.ofWhitespace leading)) := by
    refine .branch decided (List.cons_ne_nil _ _) (.cons_of_ne noBlock (.token ?_) .nil)
    rcases known with rfl | rfl <;> rfl
  refine .branch decided (List.cons_ne_nil _ _)
    (.cons_of_ne (by decide) (single (by decide) (.inl rfl) rfl)
    (.cons_of_ne (by decide) (single (by decide) (.inr rfl) rfl)
      (.cons_of_ne (by decide) (.token rfl) .nil)))

theorem formatted_field : (laidField leading name).Everywhere Formatted := by
  have formatted (node : Node) (leading : Trivia)
      (below : ∀ child ∈ node.children, child.Everywhere Formatted) :
      (node.withLeading leading).Everywhere Formatted :=
    everywhere_iff.2 ⟨(rfl : Option.isSome (some leading) = true), below⟩
  have token (kind : Kind) (text : String) (leading : Trivia) :
      ((Node.token kind text).withLeading leading).Everywhere Formatted :=
    formatted _ _ fun _ absent => absurd absent List.not_mem_nil
  refine formatted _ _ (List.forall_mem_cons.2 ⟨formatted _ _ ?_, List.forall_mem_cons.2
    ⟨formatted _ _ ?_, List.forall_mem_singleton.2 (token _ _ _)⟩⟩) <;>
  exact List.forall_mem_singleton.2 (token _ _ _)

theorem faithful_intField (name : String) : (Made.intField name).Everywhere Faithful := by
  have token (kind : Kind) (text : String) : (Node.token kind text).Everywhere Faithful :=
    aboutOrigins_faithful.everywhere rfl fun _ absent => absurd absent List.not_mem_nil
  have single (kind token_ : Kind) (text : String) :
      (Node.branch kind [Node.token token_ text]).Everywhere Faithful :=
    aboutOrigins_faithful.everywhere rfl (List.forall_mem_singleton.2 (token token_ text))
  exact aboutOrigins_faithful.everywhere rfl (List.forall_mem_cons.2 ⟨single _ _ _,
    List.forall_mem_cons.2 ⟨single _ _ _, List.forall_mem_singleton.2 (token _ _)⟩⟩)

theorem content_intField (name : String) : (Made.intField name).content = Made.intField name := by
  simp [Made.intField, Made.keyword, Made.identifier, Made.punctuation,
    content_branch, content_token]

theorem content_laidField : (laidField leading name).content = laidField leading name := by
  simp [laidField, content_withLeading, content_branch, content_token]

/-! ## Reading it -/

/-- A field as it is read. -/
def fieldRead (leading name : String) : Node :=
  Grammar.grow .variableDecl
    [Grammar.grow .typeRef [(Lexeme.made leading .word "int").node .keyword],
      Grammar.grow .declarator [(Lexeme.made " " .word name).node .identifier],
      (Lexeme.made "" .punctuation ";").node .punctuation]

theorem bare_fieldRead (laid : String) : (fieldRead leading name).bare =
    (laidField laid name).bare := by
  simp [fieldRead, laidField, Grammar.grow, bare_withLeading, Node.branch, bare_mk, bare_node,
    Lexeme.made]

theorem accepts_name (free : isReserved name = false) (leading : String) :
    Wanted.identifier.accepts (.made leading .word name) = some .identifier := by
  simp [Wanted.accepts, Lexeme.made, free]

section

variable (free : isReserved name = false)

include free

theorem reads_field (other : List Lexeme) :
    Reads takeLexeme Rule.body (.rule .fieldDecl) (fieldLexemes leading name ++ other)
      (some ([fieldRead leading name], other)) := by
  have modifiers (rest : List Lexeme) : Reads takeLexeme Rule.body (.rule .modifiers)
      (.made leading .word "int" :: rest) (some ([], .made leading .word "int" :: rest)) :=
    .rule (.manyEnd (.choiceSecond (.rule (.branch (.seqNone (.token_of_none rfl))))
      (.token_of_none rfl)))
  have dimensions {token : Lexeme} (rest : List Lexeme)
      (noBracket : takeLexeme (.punctuation "[") (token :: rest) = none) :
      Reads takeLexeme Rule.body (.rule .dimensions) (token :: rest) (some ([], token :: rest)) :=
    .rule (.manyEnd (.seqNone (.token_of_none noBracket)))
  have typed (rest : List Lexeme) : Reads takeLexeme Rule.body (.rule .typeRef)
      (.made leading .word "int" :: .made " " .word name :: rest)
      (some ([Grammar.grow .typeRef [(Lexeme.made leading .word "int").node .keyword]],
        .made " " .word name :: rest)) := by
    have based : Reads takeLexeme Rule.body (Rule.body .typeBase)
        (.made leading .word "int" :: .made " " .word name :: rest) _ :=
      .choiceFirst (.token_of_accepts rfl _)
    have whole : Reads takeLexeme Rule.body (Rule.body .typeRef) _ _ :=
      .branch (.seq based.rule (dimensions _ rfl))
    exact whole.rule
  have named (rest : List Lexeme) : Reads takeLexeme Rule.body (.rule .declarator)
      (.made " " .word name :: .made "" .punctuation ";" :: rest)
      (some ([Grammar.grow .declarator [(Lexeme.made " " .word name).node .identifier]],
        .made "" .punctuation ";" :: rest)) := by
    have noValue : Reads takeLexeme Rule.body
        (.optional (.seq (Grammar.punctuation "=") (.rule .expression)))
        (.made "" .punctuation ";" :: rest) _ :=
      reads_optional_none (.seqNone (.token_of_none rfl))
    have whole : Reads takeLexeme Rule.body (Rule.body .declarator) _ _ :=
      .branch (.seq (.token_of_accepts (accepts_name free " ") _) (.seq (dimensions _ rfl) noValue))
    exact whole.rule
  have reads : Reads takeLexeme Rule.body (Rule.body .fieldDecl)
      (fieldLexemes leading name ++ other) _ :=
    .branch (.seq (modifiers _) (.seq (typed _) (.seq (.seq (named _)
      (.manyEnd (.seqNone (.token_of_none rfl)))) (reads_mark "" ";" other))))
  exact reads.rule

theorem madeMember_field : MadeMember (fieldLexemes leading name) (fieldRead leading name) := by
  refine ⟨fun other => ?_, fun input other => ?_⟩
  · have reads := @reads_field leading name free other
    exact .rule (.choiceSecond (classDecl_none_of_field reads)
      (.choiceSecond (methodDecl_none_of_field reads) (.choiceFirst reads)))
  · exact keeps_of_declaration (@reads_field leading name free other) (by decide) rfl
      fun _ => noValue_of_refuses rfl rfl

theorem leaves_field :
    List.Forall₂ IsLeafOf (fieldLexemes leading name) (laidField leading name).leaves := by
  have word : Wanted.primitive.accepts (.made leading .word "int") = some .keyword := rfl
  have mark : (Wanted.punctuation ";").accepts (.made "" .punctuation ";") =
      some .punctuation := rfl
  refine .cons ⟨?_, rfl, _, word⟩ (.cons ⟨rfl, rfl, _, accepts_name free " "⟩
    (.cons ⟨rfl, rfl, _, mark⟩ .nil))
  simp [ownFront, Lexeme.made, show Trivia.empty.isEmpty = true from rfl]

end

end Java

end Verbatim
