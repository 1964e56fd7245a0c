import Mathlib.Data.List.Forall2
import Verbatim.Proofs.Java.Continuing
import Verbatim.Proofs.Java.Spelling
import Verbatim.Proofs.Tree.Respacing

/-! Texts put together from tokens. When white space that is there grows or shrinks, or when the
rest of a text is exchanged behind a joint, the text falls into the tokens that it was put
together from. -/

namespace Verbatim.Java

/-! ## The characters of tokens -/

def Lexeme.characters (lexeme : Lexeme) : List Char :=
  lexeme.leading.text.toList ++ lexeme.text.toList

def charactersOf (tokens : List Lexeme) : List Char := tokens.flatMap Lexeme.characters

theorem charactersOf_cons (token : Lexeme) (tokens : List Lexeme) :
    charactersOf (token :: tokens) =
      token.leading.text.toList ++ (token.text.toList ++ charactersOf tokens) := by
  rw [charactersOf, List.flatMap_cons, Lexeme.characters, List.append_assoc, charactersOf]

theorem charactersOf_append (front back : List Lexeme) :
    charactersOf (front ++ back) = charactersOf front ++ charactersOf back := List.flatMap_append

theorem CutInto.unique {cs : List Char} {tokens others : List Lexeme} (first : CutInto cs tokens)
    (second : CutInto cs others) :
    List.Forall₂ (fun token other => token.leading = other.leading ∧ token.shape = other.shape)
      tokens others := by
  induction first generalizing others with
  | @token cs text rest lexeme tokens leading found spelling left induction =>
      cases second with
      | token leading' found' spelling' left' =>
          have same := found.symm.trans found'
          simp only [Option.some.injEq, Prod.mk.injEq] at same
          rcases same with ⟨tokenClass, rfl, rfl⟩
          refine .cons ⟨leading.trans leading'.symm, ?_⟩ (induction left')
          rw [Lexeme.shape, Lexeme.shape, tokenClass, spelling, spelling']
      | last _ missing _ _ => cases found.symm.trans missing
  | @last cs lexeme leading missing tokenClass spelling =>
      cases second with
      | token _ found' _ _ => cases missing.symm.trans found'
      | last leading' _ tokenClass' spelling' =>
          refine .cons ⟨leading.trans leading'.symm, ?_⟩ .nil
          rw [Lexeme.shape, Lexeme.shape, tokenClass, tokenClass', spelling, spelling']

theorem leaves_of_alike {tokens others : List Lexeme} {leaves : List Node.Leaf}
    (areLeaves : List.Forall₂ IsLeafOf tokens leaves)
    (alike : List.Forall₂ (fun token other => token.leading = other.leading ∧
      token.shape = other.shape) tokens others) : List.Forall₂ IsLeafOf others leaves := by
  induction alike generalizing leaves with
  | nil => exact areLeaves
  | cons same _ induction =>
      cases areLeaves with
      | cons isLeaf later =>
          refine .cons ⟨same.1 ▸ isLeaf.fronts, ?_, ?_⟩ (induction later)
          · rw [isLeaf.text, (Prod.mk.inj same.2).2]
          · rcases isLeaf.kind with ⟨wanted, accepted⟩
            exact ⟨wanted, accepts_of_shape same.2 wanted ▸ accepted⟩

theorem IsLeafOf.join_fronts {token : Lexeme} {leaf : Node.Leaf} (isLeaf : IsLeafOf token leaf) :
    String.join (leaf.fronts.map Trivia.text) = token.leading.text := by
  rw [isLeaf.fronts, List.filter_cons, List.filter_nil]
  cases empty : token.leading.isEmpty with
  | true => exact (Trivia.text_of_isEmpty empty).symm
  | false => simp

theorem charactersOf_of_leaves {tokens : List Lexeme} {leaves : List Node.Leaf}
    (areLeaves : List.Forall₂ IsLeafOf tokens leaves) :
    charactersOf tokens = (String.join (leaves.map Node.Leaf.written)).toList := by
  induction areLeaves with
  | nil => rfl
  | cons isLeaf _ induction =>
      rw [charactersOf_cons, induction, List.map_cons, String.join_cons, Node.Leaf.written,
        isLeaf.join_fronts, isLeaf.text, Option.getD_some, String.toList_append,
        String.toList_append, List.append_assoc]

theorem charactersOf_eq_written {tokens : List Lexeme} {node : Node}
    (regular : node.Everywhere Node.Regular)
    (areLeaves : List.Forall₂ IsLeafOf tokens node.leaves) :
    charactersOf tokens = node.written.toList := by
  rw [Node.written_eq_join_leaves regular, charactersOf_of_leaves areLeaves]

/-- The text of a tree is read as that tree, with formatting hoisted, if it falls into the
leaves of the tree and the grammar reads other tokens as a tree of the same shape. -/
theorem parse_written {tokens left : List Lexeme} {root other : Node}
    (cut : CutInto (charactersOf tokens) tokens)
    (reads : Reads takeLexeme Rule.body (.rule .compilationUnit) left (some ([root], [])))
    (plain : ∀ token ∈ left, token.Plain) (same : root.bare = other.bare)
    (formatted : other.Everywhere Node.Formatted)
    (areLeaves : List.Forall₂ IsLeafOf tokens other.leaves) :
    ∃ tree, parse other.written = .ok tree ∧ tree.content = other.hoist.content := by
  rcases reads.yields rfl with ⟨taken, all, yields⟩
  rw [List.append_nil] at all
  subst all
  have regular : other.Everywhere Node.Regular := by
    rw [← Node.everywhere_regular_bare_iff, ← same, Node.everywhere_regular_bare_iff]
    exact (yields.covers Rule.mayBeEmpty_sound branchesGrow_body rfl).regular root
      (List.mem_singleton_self root)
  rw [charactersOf_eq_written regular areLeaves] at cut
  have leaves : List.Forall₂ IsLeafOf (lexemes other.written) other.leaves :=
    leaves_of_alike areLeaves (cut.unique (lexemes_cutInto other.written))
  have spelled : tokenTexts? other.written = some (left.map (·.text)) := by
    refine tokenTexts?_eq_some_iff.2 ⟨(map_of_isLeafOf leaves).2.2.1, ?_⟩
    rw [← (map_of_isLeafOf leaves).2.1, Node.leaves,
      Node.filterMap_text_leavesBehind (regular.mono fun _ => Node.Regular.textOrChildren),
      ← Node.tokens_bare, ← same, Node.tokens_bare, ← yields.tokens, List.flatMap_singleton]
  rcases parse_of_tokenTexts reads plain spelled with ⟨tree, parsed, bare⟩
  exact ⟨tree, parsed, content_of_parse parsed (bare.trans same) formatted leaves⟩

theorem CutInto.cons_iff {token : Lexeme} {rest : List Char} {others : List Lexeme}
    (more : others ≠ []) :
    CutInto (token.leading.text.toList ++ (token.text.toList ++ rest)) (token :: others) ↔
      Trivia.cut (token.leading.text.toList ++ (token.text.toList ++ rest)) =
        (token.leading, token.text.toList ++ rest) ∧
      token.tokenClass.cut (token.text.toList ++ rest) = some (token.text.toList, rest) ∧
      CutInto rest others := by
  constructor
  · intro cut
    generalize whole : token.leading.text.toList ++ (token.text.toList ++ rest) = cs at cut
    cases cut with
    | @token _ text left _ _ leading found spelling later =>
        have front := cutTrivia_append cs
        have behind := (cutToken_append found).1
        have written : token.text.toList = text := by rw [spelling, String.toList_ofList]
        rw [← leading, behind, ← whole, List.append_cancel_left_eq, written,
          List.append_cancel_left_eq] at front
        subst front
        refine ⟨Prod.ext leading.symm (by rw [behind, written]), ?_, later⟩
        rw [written]
        rw [behind] at found
        exact cutToken_eq_some_iff.1 found
    | last _ _ _ _ => exact absurd rfl more
  · rintro ⟨trivia, found, later⟩
    refine .token (by rw [trivia]) ?_ String.ofList_toList.symm later
    rw [trivia]
    exact cutToken_eq_some_iff.2 found

theorem CutInto.singleton {token : Lexeme} (tokenClass : token.tokenClass = .endOfText)
    (text : token.text = "")
    (trivia : Trivia.cut token.leading.text.toList = (token.leading, [])) :
    CutInto token.leading.text.toList [token] := by
  refine .last (by rw [trivia]) (by rw [trivia]; rfl) ?_ text
  rw [trivia, tokenClass]
  rfl

/-! ## Exchanging the rest -/

section

variable {front back others : List Lexeme} {rest other : List Char}

theorem CutInto.exchange (cut : CutInto (charactersOf front ++ rest) (front ++ back))
    (more : back ≠ []) (gives : GivesWay rest other) (nonempty : others ≠ [])
    (again : CutInto other others) : CutInto (charactersOf front ++ other) (front ++ others) := by
  induction front with
  | nil => exact again
  | cons token front induction =>
      have behind : front ++ back ≠ [] := fun empty => more (List.append_eq_nil_iff.1 empty).2
      have behind' : front ++ others ≠ [] := fun empty =>
        nonempty (List.append_eq_nil_iff.1 empty).2
      rw [charactersOf_cons, List.append_assoc, List.append_assoc] at cut ⊢
      rw [List.cons_append] at cut ⊢
      rcases (CutInto.cons_iff behind).1 cut with ⟨trivia, found, left⟩
      refine (CutInto.cons_iff behind').2 ⟨?_, gives.token _ _ _ found, induction left⟩
      have written : token.text.toList ≠ [] :=
        (cutToken_append (cutToken_eq_some_iff.2 found)).2
      have kept := gives.trivia token.leading.text.toList token.leading
        (token.text.toList ++ charactersOf front)
        fun empty => written (List.append_eq_nil_iff.1 empty).1
      rw [List.append_assoc, List.append_assoc] at kept
      exact kept trivia

theorem CutInto.behind (cut : CutInto (charactersOf front ++ rest) (front ++ back))
    (more : back ≠ []) : CutInto rest back := by
  induction front with
  | nil => exact cut
  | cons token front induction =>
      rw [charactersOf_cons, List.append_assoc, List.append_assoc, List.cons_append] at cut
      exact induction ((CutInto.cons_iff
        fun empty => more (List.append_eq_nil_iff.1 empty).2).1 cut).2.2

/-- The rest of a text behind a joint. The joint is the last character of a token, and the token is
cut in front of the new rest as well. -/
theorem CutInto.exchange_joint {token : Lexeme}
    (cut : CutInto (charactersOf (front ++ [token]) ++ rest) (front ++ token :: back))
    (more : back ≠ []) {start : List Char} {c : Char} (ends : token.text.toList = start ++ [c])
    (joint : isJoint c = true)
    (textBlock : cutTextBlock rest = none → cutTextBlock other = none)
    (block : Trivia.cutBlock rest = none → Trivia.cutBlock other = none)
    (closed : token.tokenClass.cut (token.text.toList ++ other) = some (token.text.toList, other))
    (nonempty : others ≠ []) (again : CutInto other others) :
    CutInto (charactersOf (front ++ [token]) ++ other) (front ++ token :: others) := by
  have gives : GivesWay (c :: rest) (c :: other) := givesWay_joint joint textBlock block (.inl rfl)
  have shape (rest : List Char) : charactersOf (front ++ [token]) ++ rest =
      charactersOf front ++ (token.leading.text.toList ++ (token.text.toList ++ rest)) := by
    rw [charactersOf_append, List.append_assoc, charactersOf_cons]
    simp [charactersOf]
  rw [shape] at cut ⊢
  rcases (CutInto.cons_iff more).1 (cut.behind (List.cons_ne_nil token back)) with ⟨trivia, -, -⟩
  have text (rest : List Char) : token.text.toList ++ rest = start ++ c :: rest := by
    rw [ends, List.append_assoc, List.singleton_append]
  have kept : Trivia.cut (token.leading.text.toList ++ (token.text.toList ++ other)) =
      (token.leading, token.text.toList ++ other) := by
    rw [text] at trivia ⊢
    cases start with
    | cons first start => exact gives.trivia _ _ _ (List.cons_ne_nil _ _) trivia
    | nil =>
        rw [List.nil_append] at trivia ⊢
        have alike : (c :: other).head? = (c :: rest).head? := rfl
        refine cutTrivia_exchange (fun _ => ?_) (.inl alike) nofun trivia
        have notSlash : c ≠ '/' := (isJoint_iff.1 joint).2.2.2.1
        rw [Trivia.cutComment]
        · exact fun _ equal => notSlash (List.cons.inj equal).1
        · exact fun _ equal => notSlash (List.cons.inj equal).1
  refine cut.exchange (List.cons_ne_nil token back) ?_ (List.cons_ne_nil token others)
    ((CutInto.cons_iff nonempty).2 ⟨kept, closed, again⟩)
  rw [text, text]
  exact (gives.prepend start).prepend _

end

/-! ## White space -/

/-- White space in front of a token gives way to other white space. -/
structure Respaced (old new : Trivia) : Prop where
  comments : new.comments = old.comments
  there : old.whitespace ≠ "" ∧ new.whitespace ≠ "" ∨ new.whitespace = old.whitespace
  space : ∀ c ∈ new.whitespace.toList, Trivia.isSpace c = true

theorem cutTextBlock_joints {joints : List Char} (joint : ∀ c ∈ joints, isJoint c = true)
    (rest : List Char) : cutTextBlock (joints ++ rest) = none ↔ cutTextBlock rest = none := by
  induction joints with
  | nil => rfl
  | cons c joints induction =>
      rw [List.forall_mem_cons] at joint
      rw [List.cons_append, ← List.nil_append (c :: _), cutTextBlock_joint joint.1,
        induction joint.2]
      exact and_iff_right rfl

theorem cutBlock_joints {joints : List Char} (joint : ∀ c ∈ joints, isJoint c = true)
    (rest : List Char) : Trivia.cutBlock (joints ++ rest) = none ↔ Trivia.cutBlock rest = none := by
  induction joints with
  | nil => rfl
  | cons c joints induction =>
      rw [List.forall_mem_cons] at joint
      rw [List.cons_append, ← List.nil_append (c :: _), cutBlock_joint joint.1, induction joint.2]
      exact and_iff_right rfl

theorem cutTextBlock_spaces {spaces : List Char} (space : ∀ c ∈ spaces, Trivia.isSpace c = true)
    (rest : List Char) : cutTextBlock (spaces ++ rest) = none ↔ cutTextBlock rest = none :=
  cutTextBlock_joints (fun c member => isJoint_of_isSpace (space c member)) rest

theorem cutBlock_spaces {spaces : List Char} (space : ∀ c ∈ spaces, Trivia.isSpace c = true)
    (rest : List Char) :
    Trivia.cutBlock (spaces ++ rest) = none ↔ Trivia.cutBlock rest = none :=
  cutBlock_joints (fun c member => isJoint_of_isSpace (space c member)) rest

theorem givesWay_spaces {old new : List Char} (oldSpace : ∀ c ∈ old, Trivia.isSpace c = true)
    (newSpace : ∀ c ∈ new, Trivia.isSpace c = true) (there : old ≠ []) (stays : new ≠ [])
    (rest : List Char) : GivesWay (old ++ rest) (new ++ rest) := by
  rcases List.exists_cons_of_ne_nil there with ⟨c, old, rfl⟩
  rcases List.exists_cons_of_ne_nil stays with ⟨c', new, rfl⟩
  rw [List.forall_mem_cons] at oldSpace newSpace
  refine givesWay_joint (isJoint_of_isSpace oldSpace.1) (fun unended => ?_) (fun unended => ?_)
    (.inr newSpace.1)
  · exact (cutTextBlock_spaces newSpace.2 rest).2 ((cutTextBlock_spaces oldSpace.2 rest).1 unended)
  · exact (cutBlock_spaces newSpace.2 rest).2 ((cutBlock_spaces oldSpace.2 rest).1 unended)

theorem toList_text_eq (trivia : Trivia) : trivia.text.toList =
    trivia.whitespace.toList ++ (String.join (trivia.comments.flatMap fun comment =>
      [comment.text, comment.gap])).toList := by
  rw [Trivia.text, Trivia.pieces, String.join_cons, String.toList_append]

theorem isSpace_of_cut {cs rest : List Char} {trivia : Trivia}
    (cut : Trivia.cut cs = (trivia, rest)) :
    ∀ c ∈ trivia.whitespace.toList, Trivia.isSpace c = true := by
  cases cut
  rw [String.toList_ofList]
  exact (Text.takeWhile_append_eq_iff.1 (congrArg (List.takeWhile Trivia.isSpace)
    (List.takeWhile_append_dropWhile (p := Trivia.isSpace) (l := cs)))).1

theorem CutInto.isSpace_leading {cs : List Char} {tokens : List Lexeme} (cut : CutInto cs tokens) :
    ∀ token ∈ tokens, ∀ c ∈ token.leading.whitespace.toList, Trivia.isSpace c = true := by
  have first (cs : List Char) := isSpace_of_cut (@rfl _ (Trivia.cut cs))
  induction cut with
  | @token cs _ _ _ _ leading _ _ _ induction =>
      exact List.forall_mem_cons.2 ⟨leading ▸ first cs, induction⟩
  | @last cs _ leading _ _ _ => exact List.forall_mem_cons.2 ⟨leading ▸ first cs, nofun⟩

theorem cutTrivia_respaced {old new : Trivia} (comments : new.comments = old.comments)
    (space : ∀ c ∈ new.whitespace.toList, Trivia.isSpace c = true) {rest : List Char}
    (cut : Trivia.cut (old.text.toList ++ rest) = (old, rest)) :
    Trivia.cut (new.text.toList ++ rest) = (new, rest) := by
  rcases old with ⟨oldSpace, oldComments⟩
  rcases new with ⟨newSpace, newComments⟩
  cases comments
  rw [toList_text_eq, List.append_assoc] at cut ⊢
  simp only at cut ⊢
  generalize (String.join _).toList ++ rest = inner at cut ⊢
  rw [Trivia.cut, Prod.mk.injEq, Trivia.mk.injEq] at cut
  rcases cut with ⟨⟨spaceEqual, commentsEqual⟩, rests⟩
  have run : (oldSpace.toList ++ inner).takeWhile Trivia.isSpace = oldSpace.toList := by
    rw [← String.toList_ofList (l := List.takeWhile _ _), spaceEqual]
  have again : (newSpace.toList ++ inner).takeWhile Trivia.isSpace = newSpace.toList :=
    Text.takeWhile_append_eq_iff.2 ⟨space, (Text.takeWhile_append_eq_iff.1 run).2⟩
  rw [Text.dropWhile_append_of_takeWhile run] at commentsEqual rests
  rw [Trivia.cut, again, Text.dropWhile_append_of_takeWhile again]
  simp only [commentsEqual, rests, String.ofList_toList]

theorem givesWay_respaced {old new : Trivia} (respaced : Respaced old new)
    {rest : List Char} (cut : Trivia.cut (old.text.toList ++ rest) = (old, rest)) :
    GivesWay (old.text.toList ++ rest) (new.text.toList ++ rest) := by
  rw [toList_text_eq, toList_text_eq, respaced.comments, List.append_assoc, List.append_assoc]
  rcases respaced.there with ⟨there, stays⟩ | same
  · exact givesWay_spaces (isSpace_of_cut cut) respaced.space
      (fun empty => there (String.toList_eq_nil_iff.1 empty))
      (fun empty => stays (String.toList_eq_nil_iff.1 empty)) _
  · rw [same]
    exact .refl _

/-- Where white space is exchanged the text falls into the same tokens. -/
theorem CutInto.respaced {cs : List Char} {tokens others : List Lexeme} (cut : CutInto cs tokens)
    (real : ∀ token ∈ tokens, token.tokenClass ≠ .stray)
    (respaced : List.Forall₂ (fun token other => other.shape = token.shape ∧
      Respaced token.leading other.leading) tokens others) :
    CutInto (charactersOf others) others ∧ GivesWay cs (charactersOf others) := by
  -- from the last token on: a token is cut as before if what is behind it still ends it
  induction cut generalizing others with
  | @token cs text rest token tokens leading found spelling left induction =>
      cases respaced with
      | @cons _ other _ others same later =>
          rcases same with ⟨shape, respaced⟩
          rw [List.forall_mem_cons] at real
          rcases induction real.2 later with ⟨again, gives⟩
          have more : tokens ≠ [] := by
            cases left <;> exact List.cons_ne_nil _ _
          have others_ : others ≠ [] := by
            rintro rfl
            cases later
            exact more rfl
          have written : token.text.toList = text := by rw [spelling, String.toList_ofList]
          have whole : cs = token.leading.text.toList ++ (token.text.toList ++ rest) := by
            rw [leading, written, ← (cutToken_append found).1, cutTrivia_append]
          have parts :=
            (CutInto.cons_iff more).1 (whole ▸ CutInto.token leading found spelling left)
          rcases parts with ⟨trivia, cut, -⟩
          rw [Lexeme.shape, Lexeme.shape, Prod.mk.injEq] at shape
          have nonempty : token.text.toList ≠ [] := written ▸ (cutToken_append found).2
          have kept := gives.trivia _ _ _ nonempty trivia
          rw [charactersOf_cons, shape.2]
          constructor
          · have step := (@CutInto.cons_iff other (charactersOf others) others others_).2
            rw [shape.1, shape.2] at step
            exact step ⟨cutTrivia_respaced respaced.comments respaced.space kept,
              gives.token _ _ [] cut, again⟩
          · rw [whole]
            exact ((gives.prepend _).prepend _).trans (givesWay_respaced respaced kept)
  | @last cs token leading missing tokenClass spelling =>
      cases respaced with
      | @cons _ other _ others same later =>
          cases later
          rcases same with ⟨shape, respaced⟩
          have ends : (Trivia.cut cs).2 = [] := by
            have noStray := real token List.mem_cons_self
            rw [tokenClass] at noStray
            cases behind : (Trivia.cut cs).2 with
            | nil => rfl
            | cons first more => simp [behind] at noStray
          have whole := cutTrivia_append cs
          rw [ends, List.append_nil, ← leading] at whole
          have trivia : Trivia.cut (token.leading.text.toList ++ []) = (token.leading, []) := by
            rw [List.append_nil, whole, ← ends, leading]
          rw [Lexeme.shape, Lexeme.shape, Prod.mk.injEq, tokenClass, ends, spelling] at shape
          have kept := cutTrivia_respaced respaced.comments respaced.space trivia
          have characters : charactersOf [other] = other.leading.text.toList ++ [] := by
            rw [charactersOf_cons, shape.2]
            rfl
          constructor
          · rw [characters, List.append_nil]
            rw [List.append_nil] at kept
            exact CutInto.singleton shape.1 shape.2 kept
          · rw [characters, ← whole, ← List.append_nil token.leading.text.toList]
            exact givesWay_respaced respaced trivia

end Verbatim.Java
