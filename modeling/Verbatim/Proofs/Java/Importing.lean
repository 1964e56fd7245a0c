import Verbatim.Java.Made
import Verbatim.Proofs.Java.Inserting
import Verbatim.Proofs.Printing.Laying

/-! Import declarations that are made: how they are laid out, what tokens they are printed as,
and that these tokens are read as the declaration. Of the name it is said that its parts are
words that are not reserved, and that there may be a star behind them. -/

namespace Verbatim

open Node

namespace Java

/-! ## Names in parts -/

theorem intersperse_cons {α : Type} (separator first : α) (more : List α) :
    (first :: more).intersperse separator = first :: more.flatMap fun next =>
      [separator, next] := by
  induction more generalizing first with
  | nil => rfl
  | cons next more induction =>
      rw [List.intersperse_cons_cons, induction next, List.flatMap_cons]
      rfl

def segmentKind (segment : String) : Kind := if segment = "*" then .punctuation else .identifier

def segmentClass (segment : String) : TokenClass := if segment = "*" then .punctuation else .word

theorem nameSegment_eq (segment : String) :
    Made.nameSegment segment = Node.token (segmentKind segment) segment := by
  rw [Made.nameSegment, segmentKind]
  split
  next star =>
    subst star
    rfl
  next => rfl

def dottedNodes (more : List String) : List Node :=
  more.flatMap fun segment =>
    [Node.token .punctuation ".", Node.token (segmentKind segment) segment]

theorem qualifiedName_eq {name first : String} {more : List String}
    (split : Text.splitString '.' name = first :: more) :
    Made.qualifiedName name =
      .branch .qualifiedName (Node.token (segmentKind first) first :: dottedNodes more) := by
  rw [Made.qualifiedName, split, List.map_cons, intersperse_cons, nameSegment_eq, List.flatMap_map,
    dottedNodes]
  simp only [nameSegment_eq]
  rfl

def lexemeOf (leading : String) (segment : String) : Lexeme :=
  .made leading (segmentClass segment) segment

def dottedLexemes (more : List String) : List Lexeme :=
  more.flatMap fun segment => [.made "" .punctuation ".", lexemeOf "" segment]

/-- What stands behind the first token of an import. -/
def importTail (isStatic : Bool) (first : String) (more : List String) : List Lexeme :=
  (if isStatic then [.made " " .word "static"] else []) ++
    lexemeOf " " first :: (dottedLexemes more ++ [.made "" .punctuation ";"])

def importLexemes (leading : Trivia) (isStatic : Bool) (first : String) (more : List String) :
    List Lexeme :=
  { Lexeme.made "" .word "import" with leading } :: importTail isStatic first more

/-! ## The text of an import -/

def IsSegment (segment : String) : Prop := segment = "*" ∨ isWord segment.toList = true

def EndsSegment (tokens : List Lexeme) : Prop :=
  ∀ c more, charactersOf tokens = c :: more → c = '.' ∨ c = ';'

theorem isSpace_blank : ∀ c ∈ " ".toList, Trivia.isSpace c = true := by
  simp [Trivia.isSpace]

section

variable {leading : String} {tokens : List Lexeme} {first : String} {more : List String}

theorem fallsApart_segment (isSegment : IsSegment first)
    (space : ∀ c ∈ leading.toList, Trivia.isSpace c = true) (ends : EndsSegment tokens)
    (apart : FallsApart tokens) : FallsApart (lexemeOf leading first :: tokens) := by
  rw [lexemeOf, segmentClass]
  split
  next star =>
    subst star
    exact apart.mark space rfl (by decide) (by decide) (by decide) (by decide)
      fun isDot => absurd isDot (by decide)
  next noStar =>
    refine apart.word space (isSegment.resolve_left noStar) fun c rest equal => ?_
    rcases ends c rest equal with rfl | rfl <;> decide

theorem noDot_of_segment (isSegment : IsSegment first) (rest : List Char) :
    charactersOf (lexemeOf "" first :: tokens) ≠ '.' :: rest := by
  rw [lexemeOf, charactersOf_made]
  intro equal
  rcases isSegment with rfl | word
  · exact absurd (List.cons.inj equal).1 (by decide)
  · cases spelled : first.toList with
    | nil =>
        rw [spelled] at word
        cases word
    | cons c spelling =>
        rw [spelled] at equal word
        rw [show c = '.' from (List.cons.inj equal).1, isWord, Bool.and_eq_true] at word
        exact absurd word.1 (by decide)

theorem fallsApart_dotted (areSegments : ∀ segment ∈ more, IsSegment segment)
    (ends : EndsSegment tokens) (apart : FallsApart tokens) :
    FallsApart (dottedLexemes more ++ tokens) ∧ EndsSegment (dottedLexemes more ++ tokens) := by
  induction more with
  | nil => exact ⟨apart, ends⟩
  | cons segment more induction =>
      rw [List.forall_mem_cons] at areSegments
      rcases induction areSegments.2 with ⟨behind, endsBehind⟩
      constructor
      · exact (fallsApart_segment areSegments.1 (fun _ absent => absurd absent List.not_mem_nil)
          endsBehind behind).mark (fun _ absent => absurd absent List.not_mem_nil) rfl (by decide)
          (by decide) (by decide) (by decide) fun _ rest => noDot_of_segment areSegments.1 rest
      · intro c rest equal
        exact .inl (List.cons.inj equal).1.symm

theorem fallsApart_import (isStatic : Bool)
    (areSegments : ∀ segment ∈ first :: more, IsSegment segment)
    (apart : FallsApart tokens) :
    FallsApart (importLexemes .empty isStatic first more ++ tokens) := by
  rw [List.forall_mem_cons] at areSegments
  have semicolon : FallsApart (.made "" .punctuation ";" :: tokens) :=
    apart.mark (fun _ absent => absurd absent List.not_mem_nil) rfl (by decide)
      (by decide) (by decide)
      (by decide) fun isDot => absurd isDot (by decide)
  have ends : EndsSegment (.made "" .punctuation ";" :: tokens) :=
    fun c rest equal => .inr (List.cons.inj equal).1.symm
  rcases fallsApart_dotted areSegments.2 ends semicolon with ⟨dotted, endsFirst⟩
  have name := fallsApart_segment areSegments.1 isSpace_blank endsFirst dotted
  have behindBlank {tokenClass : TokenClass} {text : String} {tokens : List Lexeme} (c : Char)
      (rest : List Char) (equal : charactersOf (.made " " tokenClass text :: tokens) = c :: rest) :
      isWordPart c = false := by
    rw [charactersOf_made] at equal
    rw [← (List.cons.inj equal).1]
    decide
  rw [importLexemes, importTail, List.cons_append, List.append_assoc, List.cons_append,
    List.append_assoc, List.singleton_append]
  cases isStatic with
  | false =>
      exact name.word (fun _ absent => absurd absent List.not_mem_nil) (by decide)
        behindBlank
  | true =>
      exact (name.word isSpace_blank (by decide) behindBlank).word
        (fun _ absent => absurd absent List.not_mem_nil) (by decide) behindBlank

theorem plain_of_segment (isSegment : IsSegment first) : ∀ c ∈ first.toList, c ≠ '"' ∧ c ≠ '/' := by
  rcases isSegment with rfl | word
  · simp
  · intro c member
    have part : isWordPart c = true := by
      cases spelled : first.toList with
      | nil =>
          rw [spelled] at word
          cases word
      | cons start rest =>
          rw [spelled, isWord, Bool.and_eq_true, List.all_eq_true] at word
          rw [spelled] at member
          rcases List.mem_cons.1 member with rfl | member
          · rw [isWordPart, Text.isLetterOrNumber]
            have starts := word.1
            rw [isWordStart] at starts
            simp only [Bool.or_eq_true] at starts ⊢
            exact starts.imp_left (Or.imp_left .inl)
          · exact word.2 c member
    constructor <;> rintro rfl <;> exact absurd part (by decide)

/-- What an import has open is what is open behind it. -/
theorem unended_import (isStatic : Bool)
    (areSegments : ∀ segment ∈ first :: more, IsSegment segment)
    (space : ∀ c ∈ leading.toList, Trivia.isSpace c = true) :
    (cutTextBlock (charactersOf
        (importLexemes (.ofWhitespace leading) isStatic first more ++ tokens)) = none ↔
      cutTextBlock (charactersOf tokens) = none) ∧
    (Trivia.cutBlock (charactersOf
        (importLexemes (.ofWhitespace leading) isStatic first more ++ tokens)) = none ↔
      Trivia.cutBlock (charactersOf tokens) = none) := by
  rw [List.forall_mem_cons] at areSegments
  have dotted : ∀ c ∈ charactersOf (dottedLexemes more), c ≠ '"' ∧ c ≠ '/' := by
    have each := areSegments.2
    clear areSegments
    induction more with
    | nil => exact fun _ absent => absurd absent List.not_mem_nil
    | cons segment more induction =>
        rw [List.forall_mem_cons] at each
        intro c member
        rw [dottedLexemes, List.flatMap_cons, charactersOf_append, List.mem_append] at member
        rcases member with here | behind
        · have dotOrSegment : c = '.' ∨ c ∈ segment.toList := by
            simpa [lexemeOf, charactersOf_made, show charactersOf [] = [] from rfl] using here
          rcases dotOrSegment with rfl | inSegment
          · decide
          · exact plain_of_segment each.1 c inSegment
        · exact induction each.2 c behind
  generalize body : leading.toList ++ ("import".toList ++ (charactersOf
    (if isStatic then [.made " " .word "static"] else []) ++ (" ".toList ++ (first.toList ++
      charactersOf (dottedLexemes more))))) = front
  have plain : ∀ c ∈ front, c ≠ '"' ∧ c ≠ '/' := by
    intro c member
    rw [← body] at member
    simp only [List.mem_append] at member
    rcases member with inLeading | inWord | inStatic | inBlank | inFirst | inMore
    · have isSpace := space c inLeading
      constructor <;> rintro rfl <;> exact absurd isSpace (by decide)
    · revert c
      simp
    · revert c
      cases isStatic <;>
        simp [charactersOf, Lexeme.characters, Lexeme.made, Trivia.text_ofWhitespace]
    · revert c
      simp
    · exact plain_of_segment areSegments.1 c inFirst
    · exact dotted c inMore
  have whole : charactersOf (importLexemes (.ofWhitespace leading) isStatic first more ++ tokens) =
      front ++ ';' :: charactersOf tokens := by
    rw [importLexemes, List.cons_append, charactersOf_cons, Trivia.text_ofWhitespace, importTail,
      charactersOf_append, charactersOf_append, lexemeOf, charactersOf_made, charactersOf_append,
      charactersOf_made, ← body]
    simp [Lexeme.made, charactersOf]
  rw [whole]
  exact unended_behind (by decide) plain _

theorem insertable_import (isStatic : Bool)
    (areSegments : ∀ segment ∈ first :: more, IsSegment segment)
    (space : ∀ c ∈ leading.toList, Trivia.isSpace c = true) :
    Insertable (importLexemes (.ofWhitespace leading) isStatic first more) := by
  refine ⟨fun {others} apart => ?_, fun others => ?_, fun others => ?_⟩
  · refine (fallsApart_import isStatic areSegments apart).exchange_leading (by decide)
      fun rest cut => ?_
    rcases cutTrivia_behind cut with ⟨stops, noComment, -⟩
    rw [Trivia.text_ofWhitespace]
    exact cutTrivia_spaces space stops noComment
  · exact (unended_import isStatic areSegments space).1
  · exact (unended_import isStatic areSegments space).2

end

/-! ## Its layout -/

section

variable {name first : String} {more : List String}
    (split : Text.splitString '.' name = first :: more)
  (leading : String) (isStatic : Bool)

def laidName (first : String) (more : List String) : Node :=
  (Node.branch .qualifiedName ((Node.token (segmentKind first) first :: dottedNodes more).map
    (·.withLeading .empty))).withLeading (.ofWhitespace " ")

/-- An import as it is printed behind white space. -/
def laidImport (leading : String) (isStatic : Bool) (first : String) (more : List String) : Node :=
  (Node.branch .importDecl ((Node.token .keyword "import").withLeading .empty ::
    ((if isStatic then [(Node.token .keyword "static").withLeading (.ofWhitespace " ")] else []) ++
      [laidName first more, (Node.token .punctuation ";").withLeading .empty]))).withLeading
    (.ofWhitespace leading)

theorem isToken_of_mem {node : Node}
    (member : node ∈ Node.token (segmentKind first) first :: dottedNodes more) :
    ∃ kind text, node = Node.token kind text ∧ (kind = .identifier ∨ kind = .punctuation) := by
  have isSegment (segment : String) :
      segmentKind segment = .identifier ∨ segmentKind segment = .punctuation := by
    rw [segmentKind]
    split
    · exact .inr rfl
    · exact .inl rfl
  rcases List.mem_cons.1 member with rfl | member
  · exact ⟨_, _, rfl, isSegment first⟩
  · rcases List.mem_flatMap.1 member with ⟨segment, -, member⟩
    rcases List.mem_cons.1 member with rfl | member
    · exact ⟨_, _, rfl, .inr rfl⟩
    · exact ⟨_, _, List.mem_singleton.1 member, isSegment segment⟩

theorem layOutAll_name {page : Printer.Page} {before nodes : List Node}
    (tokens : ∀ node ∈ nodes, ∃ kind text, node = Node.token kind text ∧
      (kind = .identifier ∨ kind = .punctuation)) :
    Printer.LayOutAll page .qualifiedName before nodes (nodes.map (·.withLeading .empty)) := by
  induction nodes generalizing page before with
  | nil => exact .nil
  | cons node nodes induction =>
      rw [List.forall_mem_cons] at tokens
      rcases tokens with ⟨⟨kind, text, rfl, known⟩, others⟩
      have decided : Layout.leading (Node.token kind text) (some ⟨.qualifiedName, before⟩)
          page.blockIndent = .ok "" := by
        rcases known with rfl | rfl <;> cases before <;> rfl
      exact .cons_of_ne (by decide) (.token decided) (induction others)

include split in
theorem laysOut_import {page : Printer.Page} {place : Option Layout.Place}
    (decided : Layout.leading (Made.importDecl name isStatic) place page.blockIndent =
      .ok leading) :
    Printer.LaysOut page place (Made.importDecl name isStatic)
      (laidImport leading isStatic first more) := by
  have named {page : Printer.Page} {before : List Node} {previous : Node}
      (behind : Layout.afterSibling previous = " ") : Printer.LaysOut page
        (some ⟨.importDecl, previous :: before⟩) (Made.qualifiedName name)
        (laidName first more) := by
    rw [qualifiedName_eq split]
    refine .branch (congrArg Except.ok behind) (List.cons_ne_nil _ _) ?_
    exact layOutAll_name fun node member => isToken_of_mem member
  have semicolon {page : Printer.Page} {before : List Node} {previous : Node} :
      Printer.LaysOut page (some ⟨.importDecl, previous :: before⟩) (Made.punctuation ";")
        ((Node.token .punctuation ";").withLeading .empty) := .token rfl
  refine .branch decided (by simp) (.cons_of_ne (by decide) (.token rfl) ?_)
  cases isStatic with
  | false =>
      exact .cons_of_ne (by decide) (named rfl) (.cons_of_ne (by decide) semicolon .nil)
  | true =>
      exact .cons_of_ne (by decide) (.token rfl)
        (.cons_of_ne (by decide) (named rfl) (.cons_of_ne (by decide) semicolon .nil))

theorem formatted_import : (laidImport leading isStatic first more).Everywhere Formatted := by
  have token (kind : Kind) (text : String) (leading : Trivia) :
      ((Node.token kind text).withLeading leading).Everywhere Formatted :=
    everywhere_iff.2 ⟨(rfl : Option.isSome (some leading) = true),
      fun _ absent => absurd absent List.not_mem_nil⟩
  have named : (laidName first more).Everywhere Formatted := by
    refine everywhere_iff.2 ⟨(rfl : Option.isSome (some _) = true), List.forall_mem_map.2 ?_⟩
    intro node member
    rcases isToken_of_mem member with ⟨kind, text, rfl, -⟩
    exact token kind text .empty
  refine everywhere_iff.2
    ⟨(rfl : Option.isSome (some _) = true), List.forall_mem_cons.2 ⟨token _ _ _,
    List.forall_mem_append.2 ⟨?_, ?_⟩⟩⟩
  · cases isStatic with
    | false => exact fun _ absent => absurd absent List.not_mem_nil
    | true => exact fun node member => List.mem_singleton.1 member ▸ token _ _ _
  · exact List.forall_mem_cons.2
      ⟨named, fun node member => List.mem_singleton.1 member ▸ token _ _ _⟩

theorem content_token (kind : Kind) (text : String) :
    (Node.token kind text).content = Node.token kind text := by
  rw [Node.token, content_mk]
  rfl

theorem content_branch (kind : Kind) (children : List Node) :
    (Node.branch kind children).content = Node.branch kind (children.map content) := by
  rw [Node.branch, content_mk]
  rfl

theorem map_content_dottedNodes (more : List String) :
    (dottedNodes more).map content = dottedNodes more := by
  rw [dottedNodes, List.map_flatMap]
  exact List.flatMap_congr fun segment _ => by simp [content_token]

include split in
theorem content_importDecl :
    (Made.importDecl name isStatic).content = Made.importDecl name isStatic := by
  have named : (Made.qualifiedName name).content = Made.qualifiedName name := by
    rw [qualifiedName_eq split, content_branch, List.map_cons,
      content_token, map_content_dottedNodes]
  rw [Made.importDecl, content_branch]
  cases isStatic <;> simp [Made.keyword, Made.punctuation, content_token, named]

theorem content_laidImport : (laidImport leading isStatic first more).content =
    laidImport leading isStatic first more := by
  have dotted : ((dottedNodes more).map (·.withLeading .empty)).map content =
      (dottedNodes more).map (·.withLeading .empty) := by
    rw [List.map_map]
    conv_rhs => rw [← map_content_dottedNodes, List.map_map]
    exact List.map_congr_left fun node _ => content_withLeading node .empty
  have named : (laidName first more).content = laidName first more := by
    rw [laidName, content_withLeading, content_branch, List.map_cons,
      List.map_cons, content_withLeading, content_token, dotted]
  rw [laidImport, content_withLeading, content_branch]
  cases isStatic <;> simp [content_token, content_withLeading, named]

include split in
theorem bare_import : (laidImport leading isStatic first more).bare =
    (Made.importDecl name isStatic).bare := by
  have unformatted : (bare ∘ fun node : Node => node.withLeading .empty) = bare :=
    funext fun node => bare_withLeading node _
  have named : (laidName first more).bare = (Made.qualifiedName name).bare := by
    rw [qualifiedName_eq split, laidName, bare_withLeading, branch, branch, bare_mk, bare_mk,
      List.map_map, unformatted]
  rw [laidImport, bare_withLeading, Made.importDecl, branch, branch, bare_mk, bare_mk]
  cases isStatic <;> simp [bare_withLeading, named, Made.keyword, Made.punctuation]

theorem exists_leaf_of_segment {segment : String} (inName : segment ∈ first :: more)
    (fronts : List Trivia) : ∃ leaf ∈ (laidImport leading isStatic first more).leavesBehind fronts,
      leaf.kind = segmentKind segment ∧ leaf.text = some segment := by
  have named : ∃ leaf ∈ (laidName first more).leaves,
      leaf.kind = segmentKind segment ∧ leaf.text = some segment := by
    rw [leaves, laidName, branch, withLeading, List.map_cons, leavesBehind_cons]
    rcases List.mem_cons.1 inName with rfl | member
    · exact ⟨_, List.mem_append_left _ List.mem_cons_self, rfl, rfl⟩
    · have inside : (Node.token (segmentKind segment) segment).withLeading .empty ∈
          (dottedNodes more).map (·.withLeading .empty) :=
        List.mem_map_of_mem (List.mem_flatMap.2 ⟨segment, member, by simp⟩)
      exact ⟨_, List.mem_append_right _ (List.mem_flatMap.2 ⟨_, inside, List.mem_cons_self⟩),
        rfl, rfl⟩
  rcases named with ⟨leaf, member, isSegment⟩
  refine ⟨leaf, ?_, isSegment⟩
  rw [laidImport, branch, withLeading, leavesBehind_cons]
  exact List.mem_append_right _ (List.mem_flatMap.2 ⟨laidName first more, by simp, member⟩)

end

/-! ## Reading it -/

section

variable {first : String} {words star : List String}
  (areWords : ∀ word ∈ first :: words, isWord word.toList = true)
  (free : ∀ word ∈ first :: words, isReserved word = false) (isStar : star = [] ∨ star = ["*"])

theorem ne_star_of_isWord {word : String} (isWord_ : isWord word.toList = true) : word ≠ "*" := by
  rintro rfl
  exact absurd isWord_ (by decide)

theorem accepts_lexemeOf {word : String} (isWord_ : isWord word.toList = true)
    (free : isReserved word = false) (leading : String) :
    Wanted.identifier.accepts (lexemeOf leading word) = some (segmentKind word) := by
  have noStar := ne_star_of_isWord isWord_
  simp [Wanted.accepts, lexemeOf, Lexeme.made, segmentClass, segmentKind, noStar, free]

theorem reads_mark (leading text : String) (rest : List Lexeme) :
    Reads takeLexeme Rule.body (Grammar.punctuation text) (.made leading .punctuation text :: rest)
      (some ([(Lexeme.made leading .punctuation text).node .punctuation], rest)) :=
  .token_of_accepts (by simp [Wanted.accepts, Lexeme.made]) rest

theorem reads_keyword (leading : Trivia) (word : String) (rest : List Lexeme) :
    Reads takeLexeme Rule.body (Grammar.keyword word)
      ({ Lexeme.made "" .word word with leading } :: rest)
      (some ([({ Lexeme.made "" .word word with leading } : Lexeme).node .keyword], rest)) :=
  .token_of_accepts (by simp [Wanted.accepts, Lexeme.made]) rest

theorem reads_optional_none {part : Grammar Rule} {input : List Lexeme}
    (missing : Reads takeLexeme Rule.body part input none) :
    Reads takeLexeme Rule.body (.optional part) input (some ([], input)) := .optional missing

theorem reads_optional_some {part : Grammar Rule} {input rest : List Lexeme} {nodes : List Node}
    (reads : Reads takeLexeme Rule.body part input (some (nodes, rest))) :
    Reads takeLexeme Rule.body (.optional part) input (some (nodes, rest)) := .optional reads

/-- The tokens behind dots as they are read. -/
def dottedRead (more : List String) : List Node :=
  more.flatMap fun segment => [(Lexeme.made "" .punctuation ".").node .punctuation,
    (lexemeOf "" segment).node (segmentKind segment)]

theorem map_bare_dottedRead (more : List String) :
    (dottedRead more).map bare = (dottedNodes more).map bare := by
  rw [dottedRead, dottedNodes, List.map_flatMap, List.map_flatMap]
  exact List.flatMap_congr fun segment _ => by
    simp [Lexeme.node, lexemeOf, Lexeme.made, bare_withLeading]

theorem reads_dotted (areWords : ∀ word ∈ words, isWord word.toList = true)
    (free : ∀ word ∈ words, isReserved word = false) {rest : List Lexeme}
    (ends : Reads takeLexeme Rule.body (.seq (Grammar.punctuation ".") Grammar.identifier)
      rest none) :
    Reads takeLexeme Rule.body (.many (.seq (Grammar.punctuation ".") Grammar.identifier))
      (dottedLexemes words ++ rest) (some (dottedRead words, rest)) := by
  induction words with
  | nil => exact .manyEnd ends
  | cons word words induction =>
      rw [List.forall_mem_cons] at areWords free
      exact .manyMore (.seq (reads_mark _ _ _)
        (.token_of_accepts (accepts_lexemeOf areWords.1 free.1 "") _)) (induction areWords.2 free.2)

theorem bare_node (lexeme : Lexeme) (kind : Kind) :
    (lexeme.node kind).bare = (Node.token kind lexeme.text).bare := bare_withLeading _ _

/-- An import as it is read. -/
def importRead (leading : Trivia) (isStatic : Bool) (first : String) (more : List String) : Node :=
  Grammar.grow .importDecl
    (({ Lexeme.made "" .word "import" with leading } : Lexeme).node .keyword ::
    ((if isStatic then [(Lexeme.made " " .word "static").node .keyword] else []) ++
      [Grammar.grow .qualifiedName
        ((lexemeOf " " first).node (segmentKind first) :: dottedRead more),
        (Lexeme.made "" .punctuation ";").node .punctuation]))

theorem bare_importRead (leading : Trivia) (laid : String) (isStatic : Bool) (more : List String) :
    (importRead leading isStatic first more).bare = (laidImport laid isStatic first more).bare := by
  have unformatted : (bare ∘ fun node : Node => node.withLeading .empty) = bare :=
    funext fun node => bare_withLeading node _
  have named : (Grammar.grow .qualifiedName ((lexemeOf " " first).node (segmentKind first) ::
      dottedRead more)).bare = (laidName first more).bare := by
    rw [Grammar.grow, laidName, bare_withLeading, bare_withLeading,
      branch, branch, bare_mk, bare_mk,
      List.map_map, unformatted, List.map_cons, List.map_cons, map_bare_dottedRead, Lexeme.node,
      bare_withLeading]
    rfl
  rw [importRead, laidImport, Grammar.grow, bare_withLeading,
    bare_withLeading, branch, branch, bare_mk, bare_mk]
  cases isStatic <;> simp [bare_withLeading, bare_node, named, Lexeme.made]

include areWords free isStar

theorem reads_importName (leading : String) (other : List Lexeme) :
    Reads takeLexeme Rule.body (.rule .importName)
      (lexemeOf leading first ::
        (dottedLexemes (words ++ star) ++ .made "" .punctuation ";" :: other))
      (some ([Grammar.grow .qualifiedName ((lexemeOf leading first).node (segmentKind first) ::
        dottedRead (words ++ star))], .made "" .punctuation ";" :: other)) := by
  rw [List.forall_mem_cons] at areWords free
  have start (rest : List Lexeme) : Reads takeLexeme Rule.body Grammar.identifier
      (lexemeOf leading first :: rest)
      (some ([(lexemeOf leading first).node (segmentKind first)], rest)) :=
    .token_of_accepts (accepts_lexemeOf areWords.1 free.1 leading) rest
  rcases isStar with rfl | rfl
  · have ends : Reads takeLexeme Rule.body (.seq (Grammar.punctuation ".") Grammar.identifier)
        (.made "" .punctuation ";" :: other) none := .seqNone (.token_of_none rfl)
    have noStar : Reads takeLexeme Rule.body
        (.optional (.seq (Grammar.punctuation ".") (Grammar.punctuation "*")))
        (.made "" .punctuation ";" :: other) (some ([], .made "" .punctuation ";" :: other)) :=
      reads_optional_none (.seqNone (.token_of_none rfl))
    have reads : Reads takeLexeme Rule.body (Rule.body .importName) _ _ :=
      .branch (.seq (.seq (start _) (reads_dotted areWords.2 free.2 ends)) noStar)
    simpa [Reading.after, Reading.under] using reads.rule
  · have ends : Reads takeLexeme Rule.body (.seq (Grammar.punctuation ".") Grammar.identifier)
        (.made "" .punctuation "." :: lexemeOf "" "*" :: .made "" .punctuation ";" :: other) none :=
      .seq_none (reads_mark _ _ _) (.token_of_none rfl)
    have isStar : Reads takeLexeme Rule.body
        (.optional (.seq (Grammar.punctuation ".") (Grammar.punctuation "*")))
        (.made "" .punctuation "." :: lexemeOf "" "*" :: .made "" .punctuation ";" :: other)
        (some (dottedRead ["*"], .made "" .punctuation ";" :: other)) :=
      reads_optional_some (.seq (reads_mark _ _ _) (reads_mark _ _ _))
    have reads : Reads takeLexeme Rule.body (Rule.body .importName) _ _ :=
      .branch (.seq (.seq (start _) (reads_dotted areWords.2 free.2 ends)) isStar)
    simpa [Reading.after, Reading.under, dottedLexemes, dottedRead] using reads.rule

theorem reads_import (leading : Trivia) (isStatic : Bool) (other : List Lexeme) :
    Reads takeLexeme Rule.body (.rule .importDecl)
      (importLexemes leading isStatic first (words ++ star) ++ other)
      (some ([importRead leading isStatic first (words ++ star)], other)) := by
  have noStatic (rest : List Lexeme) :
      takeLexeme (.keyword "static") (lexemeOf " " first :: rest) = none := by
    have notReserved := free first List.mem_cons_self
    have other : first ≠ "static" := by
      rintro rfl
      exact absurd notReserved (by decide)
    have noStar := ne_star_of_isWord (areWords first List.mem_cons_self)
    simp [Wanted.accepts, lexemeOf, Lexeme.made, segmentClass, noStar, other]
  have static (rest : List Lexeme) : Reads takeLexeme Rule.body
      (.optional (Grammar.keyword "static"))
      ((if isStatic then [.made " " .word "static"] else []) ++ lexemeOf " " first :: rest)
      (some (if isStatic then [(Lexeme.made " " .word "static").node .keyword] else [],
        lexemeOf " " first :: rest)) := by
    cases isStatic with
    | false => exact reads_optional_none (.token_of_none (noStatic rest))
    | true => exact reads_optional_some (reads_keyword (.ofWhitespace " ") "static" _)
  have reads : Reads takeLexeme Rule.body (Rule.body .importDecl) _ _ :=
    .branch (.seq (reads_keyword leading "import" _) (.seq (static _)
      (.seq (reads_importName areWords free isStar " " other) (reads_mark "" ";" other))))
  simpa [Reading.after, Reading.under, importLexemes, importTail, importRead] using reads.rule

omit isStar in
theorem accepted_of_segment {segment : String} (inName : segment ∈ first :: (words ++ star))
    (isStar : star = [] ∨ star = ["*"]) (leading : String) :
    ∃ wanted : Wanted, wanted.accepts (lexemeOf leading segment) = some (segmentKind segment) := by
  rw [← List.cons_append, List.mem_append] at inName
  rcases inName with isWord_ | inStar
  · exact ⟨_, accepts_lexemeOf (areWords segment isWord_) (free segment isWord_) leading⟩
  · rcases isStar with rfl | rfl
    · cases inStar
    · rw [List.mem_singleton.1 inStar]
      exact ⟨.punctuation "*", rfl⟩

/-- The tokens of a made import are its leaves. -/
theorem leaves_import {trivia : Trivia} {leading : String} (isStatic : Bool) {fronts : List Trivia}
    (inFront : fronts ++ ownFront (laidImport leading isStatic first (words ++ star)).toNodeHead =
      [trivia].filter fun front => !front.isEmpty) :
    List.Forall₂ IsLeafOf (importLexemes trivia isStatic first (words ++ star))
      ((laidImport leading isStatic first (words ++ star)).leavesBehind fronts) := by
  have token (kind : Kind) (text : String) (leading : Trivia) (fronts : List Trivia) :
      ((Node.token kind text).withLeading leading).leavesBehind fronts =
        [⟨fronts ++ [leading].filter fun front => !front.isEmpty, kind, some text⟩] := rfl
  have mark (text : String) : IsLeafOf (.made "" .punctuation text) ⟨[], .punctuation, some text⟩ :=
    ⟨rfl, rfl, .punctuation text, by simp [Wanted.accepts, Lexeme.made]⟩
  have dotted : List.Forall₂ IsLeafOf (dottedLexemes (words ++ star))
      (((dottedNodes (words ++ star)).map (·.withLeading .empty)).flatMap leaves) := by
    have accepted (segment : String) (member : segment ∈ words ++ star) :=
      accepted_of_segment areWords free (List.mem_cons_of_mem first member) isStar ""
    generalize words ++ star = more at accepted
    induction more with
    | nil => exact .nil
    | cons segment more induction =>
        rw [List.forall_mem_cons] at accepted
        exact .cons (mark ".") (.cons ⟨rfl, rfl, accepted.1⟩ (induction accepted.2))
  have named : List.Forall₂ IsLeafOf (lexemeOf " " first :: dottedLexemes (words ++ star))
      (laidName first (words ++ star)).leaves := by
    rw [leaves, laidName, branch, withLeading, List.map_cons, leavesBehind_cons, token]
    exact .cons ⟨rfl, rfl, accepted_of_segment areWords free List.mem_cons_self isStar " "⟩ dotted
  have keyword (text leading : String) (trivia : Trivia) (fronts : List Trivia)
      (inFront : fronts = [trivia].filter fun front => !front.isEmpty) :
      IsLeafOf { Lexeme.made leading .word text with leading := trivia }
        ⟨fronts, .keyword, some text⟩ :=
    ⟨inFront, rfl, .keyword text, by simp [Wanted.accepts, Lexeme.made]⟩
  have behind : List.Forall₂ IsLeafOf (importTail isStatic first (words ++ star))
      (((if isStatic then [(Node.token .keyword "static").withLeading (.ofWhitespace " ")]
        else []) ++
        [laidName first (words ++ star), (Node.token .punctuation ";").withLeading .empty]).flatMap
        leaves) := by
    have tail : List.Forall₂ IsLeafOf
        (lexemeOf " " first :: (dottedLexemes (words ++ star) ++ [.made "" .punctuation ";"]))
        ([laidName first (words ++ star), (Node.token .punctuation ";").withLeading .empty].flatMap
          leaves) :=
      List.rel_append named (.cons (mark ";") .nil)
    cases isStatic with
    | false => exact tail
    | true => exact .cons (keyword "static" " " (.ofWhitespace " ") _ rfl) tail
  rw [laidImport, branch, withLeading, leavesBehind_cons, token]
  refine .cons (keyword "import" "" trivia _ ?_) behind
  rw [← inFront]
  exact List.append_nil _

end

end Java

end Verbatim
