import Verbatim.Proofs.Java.Recutting

/-! Tokens put between others. Words and marks that are made are cut as what they are, with the
white space in front of them; and what stood in front of the place where they are put is cut as
before. -/

namespace Verbatim.Java

/-! ## What is never closed -/

theorem cutTextBlock_of_noQuote {cs : List Char} (noQuote : ∀ c ∈ cs, c ≠ '"') :
    cutTextBlock cs = none := by
  induction cs using cutTextBlock.induct with
  | case1 => rfl
  | case2 more => exact absurd rfl (noQuote '"' List.mem_cons_self)
  | case3 c more induction =>
      rw [cutTextBlock, induction fun c member =>
        noQuote c (List.mem_cons_of_mem _ (List.mem_cons_of_mem _ member))]
      rfl
  | case4 c more notQuotes notEscape induction =>
      rw [cutTextBlock, induction fun c member => noQuote c (List.mem_cons_of_mem _ member)]
      · rfl
      · exact notQuotes
      · exact notEscape

theorem cutBlock_of_noSlash {cs : List Char} (noSlash : ∀ c ∈ cs, c ≠ '/') :
    Trivia.cutBlock cs = none := by
  induction cs using Trivia.cutBlock.induct with
  | case1 => rfl
  | case2 more => exact absurd rfl (noSlash '/' (List.mem_cons_of_mem _ List.mem_cons_self))
  | case3 c more notEnd induction =>
      rw [Trivia.cutBlock, induction fun c member => noSlash c (List.mem_cons_of_mem _ member)]
      · rfl
      · exact notEnd

theorem unended_behind {c : Char} (joint : isJoint c = true) {front : List Char}
    (plain : ∀ c ∈ front, c ≠ '"' ∧ c ≠ '/') (back : List Char) :
    (cutTextBlock (front ++ c :: back) = none ↔ cutTextBlock back = none) ∧
      (Trivia.cutBlock (front ++ c :: back) = none ↔ Trivia.cutBlock back = none) := by
  rw [cutTextBlock_joint joint, cutBlock_joint joint]
  exact ⟨and_iff_right (cutTextBlock_of_noQuote fun c member => (plain c member).1),
    and_iff_right (cutBlock_of_noSlash fun c member => (plain c member).2)⟩

/-! ## Behind trivia -/

theorem space_of_stops {cs : List Char} (c : Char) (more : List Char)
    (equal : cs.dropWhile Trivia.isSpace = c :: more) : Trivia.isSpace c = false := by
  have split := List.takeWhile_append_dropWhile (p := Trivia.isSpace) (l := cs)
  exact (Text.takeWhile_append_eq_iff.1 (congrArg (List.takeWhile Trivia.isSpace) split)).2
    c more equal

/-- Neither white space nor a comment stands behind comments, and if anything does the last of
them does not go on up to there. -/
theorem cutComments_behind {cs rest : List Char} {comments : List Comment}
    (stops : ∀ c more, cs = c :: more → Trivia.isSpace c = false)
    (cut : Trivia.cutComments cs = (comments, rest)) :
    (∀ c more, rest = c :: more → Trivia.isSpace c = false) ∧ Trivia.cutComment rest = none ∧
      (rest ≠ [] → opensLine comments = false) := by
  induction cs using Trivia.cutComments.induct generalizing comments with
  | case1 cs missing =>
      rw [cutComments_of_none missing] at cut
      cases cut
      exact ⟨stops, missing, fun _ => rfl⟩
  | case2 cs style text behind found _ _ more left found' induction =>
      rw [cutComments_of_some found] at cut
      rcases Prod.mk.inj cut with ⟨rfl, rests⟩
      rcases induction space_of_stops (Prod.ext rfl rests) with ⟨stopsBehind, missing, closed⟩
      refine ⟨stopsBehind, missing, fun some => ?_⟩
      cases inside : (Trivia.cutComments (behind.dropWhile Trivia.isSpace)).1 with
      | cons second others =>
          rw [opensLine_cons_cons, ← inside]
          exact closed some
      | nil =>
          have text_ := Trivia.cutComment_append found
          cases behind with
          | nil =>
              rw [List.dropWhile_nil, cutComments_of_none rfl] at rests
              exact absurd rests.symm some
          | cons c more =>
              rw [opensLine, List.getLast?_singleton, Option.any_some, Bool.and_eq_false_iff,
                decide_eq_false_iff_not]
              by_cases line : style = .line
              · subst line
                rw [text_] at found
                have newline := newline_of_lineComment found rfl
                subst newline
                exact .inr (by simp [Trivia.isSpace])
              · exact .inl line

theorem cutTrivia_behind {cs rest : List Char} {trivia : Trivia}
    (cut : Trivia.cut cs = (trivia, rest)) :
    (∀ c more, rest = c :: more → Trivia.isSpace c = false) ∧ Trivia.cutComment rest = none ∧
      (rest ≠ [] → opensLine trivia.comments = false) := by
  rw [Trivia.cut] at cut
  rcases Prod.mk.inj cut with ⟨rfl, rests⟩
  exact cutComments_behind space_of_stops (Prod.ext rfl rests)

theorem cutTrivia_spaces {spaces : String} (space : ∀ c ∈ spaces.toList, Trivia.isSpace c = true)
    {rest : List Char} (stops : ∀ c more, rest = c :: more → Trivia.isSpace c = false)
    (noComment : Trivia.cutComment rest = none) :
    Trivia.cut (spaces.toList ++ rest) = (.ofWhitespace spaces, rest) := by
  have run := Text.takeWhile_append_eq_iff.2 ⟨space, stops⟩
  rw [Trivia.cut, run, Text.dropWhile_append_of_takeWhile run, cutComments_of_none noComment,
    String.ofList_toList, Trivia.ofWhitespace]

theorem cutComment_of_noSlash {cs : List Char} (noSlash : ∀ c more, cs = c :: more → c ≠ '/') :
    Trivia.cutComment cs = none := by
  rw [Trivia.cutComment]
  · rintro rest rfl
    exact noSlash _ _ rfl rfl
  · rintro rest rfl
    exact noSlash _ _ rfl rfl

/-! ## Made tokens -/

/-- Behind white space. -/
def Lexeme.made (leading : String) (tokenClass : TokenClass) (text : String) : Lexeme :=
  ⟨.ofWhitespace leading, tokenClass, text, 0, 0, .none, .none⟩

theorem Trivia.text_ofWhitespace (whitespace : String) :
    (Trivia.ofWhitespace whitespace).text = whitespace := by
  rw [Trivia.text, Trivia.pieces, String.join_cons]
  exact String.append_empty

theorem charactersOf_made (leading : String) (tokenClass : TokenClass) (text : String)
    (tokens : List Lexeme) :
    charactersOf (.made leading tokenClass text :: tokens) =
      leading.toList ++ (text.toList ++ charactersOf tokens) := by
  rw [charactersOf_cons, Lexeme.made, Trivia.text_ofWhitespace]

def FallsApart (tokens : List Lexeme) : Prop := CutInto (charactersOf tokens) tokens

theorem fallsApart_cons_iff {token : Lexeme} {others : List Lexeme} (more : others ≠ []) :
    FallsApart (token :: others) ↔
      Trivia.cut (token.leading.text.toList ++ (token.text.toList ++ charactersOf others)) =
        (token.leading, token.text.toList ++ charactersOf others) ∧
      token.tokenClass.cut (token.text.toList ++ charactersOf others) =
        some (token.text.toList, charactersOf others) ∧
      FallsApart others := by
  rw [FallsApart, charactersOf_cons]
  exact CutInto.cons_iff more

theorem fallsApart_lexemes {text : String} {tree : Node} (parsed : parse text = .ok tree) :
    FallsApart (lexemes text) := by
  have read := parse_readFrom parsed
  rw [FallsApart, charactersOf_eq_written read.regular (leaves_of_parse parsed), read.written]
  exact lexemes_cutInto text

section

variable {leading text : String} {tokens : List Lexeme}
  (space : ∀ c ∈ leading.toList, Trivia.isSpace c = true) (apart : FallsApart tokens)

theorem CutInto.ne_nil {cs : List Char} (cut : CutInto cs tokens) : tokens ≠ [] := by
  cases cut <;> exact List.cons_ne_nil _ _

include space apart

theorem FallsApart.cons {tokenClass : TokenClass} {first : Char} {more : List Char}
    (spelled : text.toList = first :: more) (noSpace : Trivia.isSpace first = false)
    (noSlash : first ≠ '/')
    (found : tokenClass.cut (text.toList ++ charactersOf tokens) =
      some (text.toList, charactersOf tokens)) :
    FallsApart (.made leading tokenClass text :: tokens) := by
  have leads (c : Char) (rest : List Char)
      (equal : text.toList ++ charactersOf tokens = c :: rest) : first = c := by
    rw [spelled, List.cons_append] at equal
    exact (List.cons.inj equal).1
  refine (fallsApart_cons_iff apart.ne_nil).2 ⟨?_, found, apart⟩
  rw [Lexeme.made, Trivia.text_ofWhitespace]
  exact cutTrivia_spaces space (fun c rest equal => leads c rest equal ▸ noSpace)
    (cutComment_of_noSlash fun c rest equal => leads c rest equal ▸ noSlash)

theorem FallsApart.word (word : isWord text.toList = true)
    (ends : ∀ c more, charactersOf tokens = c :: more → isWordPart c = false) :
    FallsApart (.made leading .word text :: tokens) := by
  rcases isWord_iff.1 word with ⟨first, more, spelled, starts, -⟩
  have part := isWordPart_of_isWordStart starts
  refine .cons space apart spelled ?_ (isJoint_iff.1 (isJoint_of_isWordPart part)).2.2.2.1
    (cutWord_eq_some_iff.2 ⟨word, ends⟩)
  rw [← Bool.not_eq_true]
  intro isSpace
  rw [not_isWordPart_of_isSpace isSpace] at part
  cases part

theorem FallsApart.mark {c : Char} (spelled : text.toList = [c]) (isMark : isPunctuation c = true)
    (noSlash : c ≠ '/') (noColon : c ≠ ':') (noMinus : c ≠ '-')
    (noDots : c = '.' → ∀ more, charactersOf tokens ≠ '.' :: more) :
    FallsApart (.made leading .punctuation text :: tokens) := by
  refine .cons space apart spelled ?_ noSlash ?_
  · rw [← Bool.not_eq_true]
    intro isSpace
    simp only [Trivia.isSpace, Bool.or_eq_true, decide_eq_true_eq] at isSpace
    rcases isSpace with (((rfl | rfl) | rfl) | rfl) | rfl <;> exact absurd isMark (by decide)
  · rw [spelled]
    show cutPunctuation _ = _
    rw [List.singleton_append, cutPunctuation, if_pos isMark]
    · exact fun more isDot equal => noDots isDot _ equal
    · exact fun _ isColon _ => noColon isColon
    · exact fun _ isMinus _ => noMinus isMinus

end

/-! ## Among others -/

theorem FallsApart.cut_leading {token : Lexeme} {tokens : List Lexeme}
    (apart : FallsApart (token :: tokens)) (real : token.tokenClass ≠ .stray) :
    Trivia.cut (charactersOf (token :: tokens)) =
      (token.leading, token.text.toList ++ charactersOf tokens) := by
  rw [FallsApart] at apart
  cases tokens with
  | cons next tokens =>
      rw [charactersOf_cons] at apart ⊢
      exact ((CutInto.cons_iff (List.cons_ne_nil _ _)).1 apart).1
  | nil =>
      generalize charactersOf [token] = cs at apart
      cases apart with
      | token _ _ _ behind => exact absurd rfl behind.ne_nil
      | last leading missing tokenClass spelling =>
          have ends : (Trivia.cut cs).2 = [] := by
            cases behind : (Trivia.cut cs).2 with
            | nil => rfl
            | cons first more =>
                rw [tokenClass, behind] at real
                exact absurd rfl real
          rw [spelling]
          exact Prod.ext leading.symm ends

theorem FallsApart.closed {token next : Lexeme} {tokens : List Lexeme}
    (apart : FallsApart (token :: next :: tokens)) (real : token.tokenClass ≠ .stray) :
    opensLine token.leading.comments = false := by
  refine (cutTrivia_behind (apart.cut_leading real)).2.2 fun empty => ?_
  have found := ((fallsApart_cons_iff (List.cons_ne_nil _ _)).1 apart).2.1
  exact (cutToken_append (cutToken_eq_some_iff.2 found)).2 (List.append_eq_nil_iff.1 empty).1

theorem FallsApart.exchange_leading {token : Lexeme} {tokens : List Lexeme}
    (apart : FallsApart (token :: tokens)) (real : token.tokenClass ≠ .stray) {leading : Trivia}
    (again : ∀ rest, Trivia.cut (token.leading.text.toList ++ rest) = (token.leading, rest) →
      Trivia.cut (leading.text.toList ++ rest) = (leading, rest)) :
    FallsApart ({ token with leading } :: tokens) := by
  have cut := apart.cut_leading real
  rw [charactersOf_cons] at cut
  have kept := again _ cut
  rw [FallsApart, charactersOf_cons] at apart ⊢
  cases tokens with
  | cons next tokens =>
      rcases (CutInto.cons_iff (List.cons_ne_nil _ _)).1 apart with ⟨-, found, behind⟩
      exact (CutInto.cons_iff (List.cons_ne_nil _ _)).2 ⟨kept, found, behind⟩
  | nil =>
      generalize token.leading.text.toList ++ _ = cs at apart cut
      cases apart with
      | token _ _ _ behind => exact absurd rfl behind.ne_nil
      | last _ _ tokenClass spelling =>
          have text : token.text.toList ++ charactersOf [] = [] := by
            rw [spelling]
            rfl
          rw [text, List.append_nil] at kept ⊢
          refine @CutInto.singleton { token with leading } ?_ spelling kept
          rw [tokenClass, cut, text]
          rfl

theorem unended_exchange {old new : Trivia} (comments : new.comments = old.comments)
    (oldSpace : ∀ c ∈ old.whitespace.toList, Trivia.isSpace c = true)
    (newSpace : ∀ c ∈ new.whitespace.toList, Trivia.isSpace c = true) (rest : List Char) :
    (cutTextBlock (new.text.toList ++ rest) = none ↔
      cutTextBlock (old.text.toList ++ rest) = none) ∧
      (Trivia.cutBlock (new.text.toList ++ rest) = none ↔
        Trivia.cutBlock (old.text.toList ++ rest) = none) := by
  rw [toList_text_eq, toList_text_eq, comments, List.append_assoc, List.append_assoc,
    cutTextBlock_spaces newSpace, cutTextBlock_spaces oldSpace, cutBlock_spaces newSpace,
    cutBlock_spaces oldSpace]
  exact ⟨.rfl, .rfl⟩

theorem FallsApart.exchange_behind {front back others : List Lexeme} {token : Lexeme}
    (apart : FallsApart (front ++ token :: back)) (more : back ≠ []) {start : List Char} {c : Char}
    (ends : token.text.toList = start ++ [c]) (joint : isJoint c = true)
    (textBlock : cutTextBlock (charactersOf back) = none →
      cutTextBlock (charactersOf others) = none)
    (block : Trivia.cutBlock (charactersOf back) = none →
      Trivia.cutBlock (charactersOf others) = none)
    (closed : token.tokenClass.cut (token.text.toList ++ charactersOf others) =
      some (token.text.toList, charactersOf others))
    (again : FallsApart others) : FallsApart (front ++ token :: others) := by
  have shape (back : List Lexeme) : charactersOf (front ++ token :: back) =
      charactersOf (front ++ [token]) ++ charactersOf back := by
    rw [← charactersOf_append, List.append_assoc, List.singleton_append]
  rw [FallsApart, shape] at apart ⊢
  exact apart.exchange_joint more ends joint textBlock block closed again.ne_nil again

/-! ## Nodes whose formatting is exchanged -/

theorem IsLeafOf.leading_eq {token : Lexeme} {leading : Trivia} {kind : Kind} {text : Option String}
    (isLeaf : IsLeafOf token ⟨[leading].filter fun front => !front.isEmpty, kind, text⟩) :
    token.leading = leading := by
  have fronts := isLeaf.fronts
  simp only [List.filter_cons, List.filter_nil, Bool.not_eq_true'] at fronts
  split at fronts <;> split at fronts
  · exact (List.cons.inj fronts).1.symm
  · cases fronts
  · cases fronts
  · next some none =>
      rw [Bool.not_eq_false] at none some
      rw [Trivia.eq_empty_of_isEmpty none, Trivia.eq_empty_of_isEmpty some]

theorem IsLeafOf.withLeading {token : Lexeme} {fronts : List Trivia} {kind : Kind}
    {text : Option String} (isLeaf : IsLeafOf token ⟨fronts, kind, text⟩) (leading : Trivia) :
    IsLeafOf { token with leading } ⟨[leading].filter fun front => !front.isEmpty, kind, text⟩ := by
  rcases isLeaf.kind with ⟨wanted, accepted⟩
  exact ⟨rfl, isLeaf.text, wanted, by rw [← accepted]; exact accepts_of_shape rfl wanted⟩

/-- Other white space in front of a node. -/
def RespacedNode (node new : Node) : Prop :=
  new = node ∨ ∃ leading : Trivia, new = node.withLeading leading ∧
    leading.comments = node.leadingOrEmpty.comments ∧
    ∀ c ∈ leading.whitespace.toList, Trivia.isSpace c = true

theorem RespacedNode.explicit {node new : Node} (respaced : RespacedNode node new)
    (explicit : node.Everywhere Node.Explicit) : new.Everywhere Node.Explicit := by
  rcases respaced with rfl | ⟨leading, rfl, -, -⟩
  · exact explicit
  · exact Node.everywhere_iff.2 ⟨⟨rfl, explicit.here.spelled⟩, fun _ => explicit.child⟩

theorem RespacedNode.bare_eq {node new : Node} (respaced : RespacedNode node new) :
    new.bare = node.bare := by
  rcases respaced with rfl | ⟨leading, rfl, -, -⟩
  · rfl
  · exact Node.bare_withLeading node leading

theorem ne_nil_of_leaves {node : Node} (lifted : node.Everywhere Node.Lifted) {tokens : List Lexeme}
    {leaves : List Node.Leaf} (areLeaves : List.Forall₂ IsLeafOf tokens (node.leaves ++ leaves)) :
    tokens ≠ [] := by
  rintro rfl
  rcases Node.leavesBehind_of_lifted lifted with ⟨kind, text, others, own, -⟩
  rw [Node.leaves, own, List.cons_append] at areLeaves
  cases areLeaves

theorem exists_respaced {node new : Node} (lifted : node.Everywhere Node.Lifted)
    (respaced : RespacedNode node new) {tokens : List Lexeme} {leaves : List Node.Leaf}
    (apart : FallsApart tokens) (areLeaves : List.Forall₂ IsLeafOf tokens (node.leaves ++ leaves)) :
    ∃ others, FallsApart others ∧ List.Forall₂ IsLeafOf others (new.leaves ++ leaves) ∧
      (cutTextBlock (charactersOf others) = none ↔ cutTextBlock (charactersOf tokens) = none) ∧
      (Trivia.cutBlock (charactersOf others) = none ↔
        Trivia.cutBlock (charactersOf tokens) = none) := by
  rcases respaced with rfl | ⟨leading, rfl, comments, space⟩
  · exact ⟨tokens, apart, areLeaves, .rfl, .rfl⟩
  · rcases Node.leavesBehind_of_lifted lifted with ⟨kind, text, others, own, exchanged⟩
    rw [Node.leaves, own, List.nil_append, Node.ownFront] at areLeaves
    rw [Node.leaves, exchanged, List.nil_append]
    cases areLeaves with
    | @cons token _ tokens _ isLeaf behind =>
        have front := isLeaf.leading_eq
        have oldSpace := apart.isSpace_leading token List.mem_cons_self
        have sameComments : leading.comments = token.leading.comments := by
          rw [front]; exact comments
        refine ⟨{ token with leading } :: tokens, ?_, .cons (isLeaf.withLeading leading) behind, ?_⟩
        · exact apart.exchange_leading isLeaf.not_stray fun rest =>
            cutTrivia_respaced sameComments space
        · rw [charactersOf_cons, charactersOf_cons]
          exact unended_exchange sameComments oldSpace space _

/-! ## Between other tokens -/

/-- Tokens that are cut as they are in front of any others, and that have nothing open behind
them. -/
structure Insertable (made : List Lexeme) : Prop where
  apart : ∀ {others : List Lexeme}, FallsApart others → FallsApart (made ++ others)
  textBlock : ∀ others, cutTextBlock (charactersOf (made ++ others)) = none ↔
    cutTextBlock (charactersOf others) = none
  block : ∀ others, Trivia.cutBlock (charactersOf (made ++ others)) = none ↔
    Trivia.cutBlock (charactersOf others) = none

/-- They can be put behind a token that ends in a joint and that does not go on with them. The
formatting of the node behind them may be exchanged at the same time. -/
theorem Insertable.exists_tokens {front made back : List Lexeme} {last : Lexeme}
    (insertable : Insertable made) (apart : FallsApart (front ++ last :: back)) {start : List Char}
    {c : Char} (ends : last.text.toList = start ++ [c]) (joint : isJoint c = true)
    (closed : ∀ others, last.tokenClass.cut (last.text.toList ++ charactersOf (made ++ others)) =
      some (last.text.toList, charactersOf (made ++ others)))
    {node new : Node} (lifted : node.Everywhere Node.Lifted) (respaced : RespacedNode node new)
    {leaves : List Node.Leaf} (areLeaves : List.Forall₂ IsLeafOf back (node.leaves ++ leaves)) :
    ∃ others, FallsApart (front ++ last :: (made ++ others)) ∧
      List.Forall₂ IsLeafOf others (new.leaves ++ leaves) := by
  have more := ne_nil_of_leaves lifted areLeaves
  have behind : FallsApart back := by
    rw [FallsApart, ← List.singleton_append, ← List.append_assoc, charactersOf_append] at apart
    exact apart.behind more
  rcases exists_respaced lifted respaced behind areLeaves with
    ⟨others, othersApart, othersLeaves, textBlock, block⟩
  refine ⟨others, ?_, othersLeaves⟩
  exact apart.exchange_behind more ends joint
    (fun isOpen => (insertable.textBlock others).2 (textBlock.2 isOpen))
    (fun isOpen => (insertable.block others).2 (block.2 isOpen)) (closed others)
    (insertable.apart othersApart)

theorem Insertable.plain {made : List Lexeme} (insertable : Insertable made)
    {leaves : List Node.Leaf} (areLeaves : List.Forall₂ IsLeafOf made leaves) {text : String}
    {tree : Node} (parsed : parse text = .ok tree) : ∀ token ∈ made, token.Plain := by
  have whole := (insertable.apart (fallsApart_lexemes parsed)).plain (List.forall_mem_append.2
    ⟨(map_of_isLeafOf areLeaves).2.2.1, (map_of_isLeafOf (leaves_of_parse parsed)).2.2.1⟩)
  exact (List.forall_mem_append.1 whole).1

end Verbatim.Java
