import Mathlib.Data.List.TakeWhile
import Verbatim.Proofs.Java.Fields
import Verbatim.Proofs.Tree.Spots

/-! Fields put at the end of the bodies of types. Such a field is printed on a line of its own
with the margin of the members in front of it. Nothing else of the text is changed, but for the
blanks in front of a brace that stands on the same line: they become a line break. What is
printed is read back. -/

namespace Verbatim

open Node

/-- With one child more, in front of the last one. -/
def Node.withMember (block member : Node) : Node :=
  block.withChildren (block.children.dropLast ++ member :: block.children.getLast?.toList)

theorem Node.withMember_of_children {block brace : Node} {inside : List Node}
    (children : block.children = inside ++ [brace]) (member : Node) :
    block.withMember member = block.withChildren (inside ++ [member, brace]) := by
  simp [withMember, children]

/-! ## Margins -/

/-- Nothing but blanks and tabs. -/
def Text.IsIndent (text : String) : Prop := ∀ c ∈ text.toList, isMargin c = true

theorem Text.isIndent_lastLineIndent (text : String) : IsIndent (lastLineIndent text) := by
  rw [IsIndent, lastLineIndent, String.toList_ofList]
  exact fun c member => List.mem_takeWhile_imp member

theorem Printer.Page.isIndent_inside {page : Page} (isIndent : Text.IsIndent page.blockIndent)
    (kind : Kind)
    (leading : Trivia) : Text.IsIndent (page.inside kind leading).blockIndent := by
  rw [inside]
  split
  · exact Text.isIndent_lastLineIndent _
  · exact isIndent

theorem Text.IsIndent.isSpace {text : String} (isIndent : IsIndent text) :
    ∀ c ∈ ("\n" ++ text).toList, Trivia.isSpace c = true := by
  rw [String.toList_append, List.forall_mem_append]
  refine ⟨by simp [Trivia.isSpace], fun c member => ?_⟩
  have margin := isIndent c member
  simp only [isMargin, Bool.or_eq_true, decide_eq_true_eq] at margin
  rcases margin with rfl | rfl <;> rfl

theorem Layout.isIndent_memberIndent {blockIndent : String} (isIndent : Text.IsIndent blockIndent)
    (before : List Node) : Text.IsIndent (memberIndent before blockIndent) := by
  rw [memberIndent]
  cases found : (before.filter fun sibling => !sibling.is .punctuation).findSome? fun sibling =>
      sibling.leading.bind Trivia.indent with
  | none =>
      rw [Option.getD_none, Text.IsIndent, String.toList_append, List.forall_mem_append]
      exact ⟨isIndent, by simp [indentStep, Text.isMargin]⟩
  | some margin =>
      rcases List.exists_of_findSome?_eq_some found with ⟨sibling, -, hasMargin⟩
      rcases Option.bind_eq_some_iff.1 hasMargin with ⟨leading, -, isMargin⟩
      rw [Trivia.indent] at isMargin
      split at isMargin
      · cases isMargin
        exact Text.isIndent_lastLineIndent _
      · cases isMargin

/-! ## The brace -/

/-- A brace behind a member stays as it is, or it moves to a line of its own if nothing but
white space without a line break stands in front of it. -/
def Lowered (brace other : Node) : Prop :=
  other = brace ∨ brace.leadingOrEmpty.newlines = 0 ∧ brace.leadingOrEmpty.comments = [] ∧
    ∃ margin, Text.IsIndent margin ∧ other = brace.withLeading (.ofWhitespace ("\n" ++ margin))

theorem lowered_settleBrace {page : Printer.Page} (isIndent : Text.IsIndent page.blockIndent)
    (parent : Kind) (before : List Node) (brace : Node) :
    Lowered brace (Printer.settleBrace parent before page brace) := by
  rw [Printer.settleBrace]
  split
  next moves =>
    cases isLeading : brace.leading with
    | none => simp [Printer.movesDown, isLeading] at moves
    | some leading =>
        simp only [Printer.movesDown, isLeading, Option.any_some, Bool.and_eq_true, beq_iff_eq,
          List.isEmpty_iff] at moves
        rcases moves with ⟨-, -, noNewline, noComments⟩
        rw [Lowered, leadingOrEmpty, isLeading]
        exact .inr ⟨noNewline, noComments, _, isIndent, rfl⟩
  next => exact .inl rfl

theorem Lowered.respaced {brace other : Node} (lowered : Lowered brace other) :
    Java.RespacedNode brace other := by
  rcases lowered with rfl | ⟨-, noComments, margin, isIndent, rfl⟩
  · exact .inl rfl
  · exact .inr ⟨_, rfl, noComments.symm, isIndent.isSpace⟩

namespace Printer

/-! ## Where a node stands -/

theorem formatted_behind {nodes : List Node} (explicit : ∀ node ∈ nodes, node.Everywhere Explicit) :
    ∀ sibling ∈ (nodes.map content).reverse ++ [], sibling.Formatted := by
  rw [List.append_nil]
  intro sibling member
  rcases List.mem_map.1 (List.mem_reverse.1 member) with ⟨node, inside, rfl⟩
  exact (everywhere_explicit_content (explicit node inside)).here.formatted

/-- At the end of a path in a tree that leaves nothing to the layout, a node is printed behind
the same text whatever it is. -/
theorem exists_laysOut_at {node inner : Node} {path : List Nat}
    (explicit : node.Everywhere Explicit)
    (regular : node.Everywhere Regular) (found : node.descendant? path = some inner) {page : Page}
    (isIndent : Text.IsIndent page.blockIndent) (place : Option Layout.Place) :
    ∃ (page' : Page) (place' : Option Layout.Place), Text.IsIndent page'.blockIndent ∧
      ∀ {other laid : Node}, other.Formatted → LaysOut page' place' other laid →
        LaysOut page place (node.content.replaceAt other path)
          (node.content.replaceAt laid path) := by
  induction path generalizing node page place with
  | nil => exact ⟨page, place, isIndent, fun _ laysOut => laysOut⟩
  | cons step path induction =>
      rcases exists_child_of_descendant? found with ⟨before, child, behind, children, rfl, below⟩
      rcases node with ⟨head, nodes⟩
      obtain rfl : nodes = before ++ child :: behind := children
      rcases Option.isSome_iff_exists.1 explicit.here.formatted with ⟨leading, isLeading⟩
      have inside : ∀ node ∈ before ++ child :: behind, node.Everywhere Explicit :=
        fun node member => explicit.child member
      rw [List.forall_mem_append, List.forall_mem_cons] at inside
      rcases inside with ⟨beforeExplicit, childExplicit, behindExplicit⟩
      have allFormatted := formatted_behind beforeExplicit
      have noText : head.text = none :=
        regular.here.noText (List.append_ne_nil_of_right_ne_nil _ (by simp))
      have indented :
          Text.IsIndent ((page.inside head.kind leading).put (writtenOfAll before)).blockIndent :=
        Page.isIndent_inside isIndent head.kind leading
      rcases induction childExplicit (regular.child (by simp)) below indented
          (some ⟨head.kind, (before.map content).reverse ++ []⟩) with
        ⟨page', place', indented', laysOut⟩
      refine ⟨page', place', indented', fun {other laid} formatted here => ?_⟩
      have replaced (new : Node) : (Node.content ⟨head, before ++ child :: behind⟩).replaceAt new
          (before.length :: path) =
          ⟨headContent head, before.map content ++ child.content.replaceAt new path ::
            behind.map content⟩ := by
        rw [← List.length_map content, replaceAt_of_children, content_mk, withChildren]
        · rfl
        · rw [content_mk]
          simp
      rw [replaced, replaced]
      have childFormatted := (everywhere_explicit_content childExplicit).here.formatted
      refine .of_children isLeading rfl noText regular.here.trailing (by simp)
        (.explicit_append beforeExplicit (fun _ _ absent => absurd absent List.not_mem_nil)
          (.cons_of_formatted (fun _ => allFormatted) (laysOut formatted here)
            (.of_explicit behindExplicit fun _ => List.forall_mem_cons.2
              ⟨formatted_replaceAt childFormatted formatted path, allFormatted⟩)))

/-! ## A block with a field -/

theorem leading_intField (name : String) {before : List Node}
    (more : before ≠ []) (indent : String) :
    Layout.leading (Java.Made.intField name) (some ⟨.block, before⟩) indent =
      .ok ("\n" ++ Layout.memberIndent before indent) := by
  rcases List.exists_cons_of_ne_nil more with ⟨previous, rest, rfl⟩
  rfl

theorem exists_laysOut_withMember {block brace member : Node} {inside : List Node} {name : String}
    (explicit : block.Everywhere Explicit) (regular : block.Regular) (isBlock : block.kind = .block)
    (children : block.children = inside ++ [brace]) (more : inside ≠ [])
    (made : member.content = Java.Made.intField name) {page : Page}
    (isIndent : Text.IsIndent page.blockIndent) (place : Option Layout.Place) :
    ∃ margin other, Text.IsIndent margin ∧ Lowered brace other ∧
      LaysOut page place (block.withMember member).content
        (block.withChildren (inside ++ [Java.laidField ("\n" ++ margin) name, other])).content := by
  rcases block with ⟨head, nodes⟩
  obtain rfl : nodes = inside ++ [brace] := children
  rcases Option.isSome_iff_exists.1 explicit.here.formatted with ⟨leading, isLeading⟩
  have noText : head.text = none := regular.noText (List.append_ne_nil_of_right_ne_nil _ (by simp))
  have below : ∀ node ∈ inside ++ [brace], node.Everywhere Explicit := fun node => explicit.child
  rw [List.forall_mem_append, List.forall_mem_singleton] at below
  let start := (page.inside .block leading).put (writtenOfAll inside)
  let before := (inside.map content).reverse ++ []
  let margin := Layout.memberIndent before start.blockIndent
  let behind := start.put (Java.laidField ("\n" ++ margin) name).written
  have startIndent : Text.IsIndent start.blockIndent := Page.isIndent_inside isIndent .block leading
  have lowered := @lowered_settleBrace behind startIndent .block (member :: inside.reverse) brace
  have settled := settleBrace_content .block (member :: inside.reverse) behind brace
  rw [List.map_cons, made, List.map_reverse,
    ← List.append_nil (inside.map content).reverse] at settled
  generalize settleBrace .block (member :: inside.reverse) behind brace = other at lowered settled
  refine ⟨margin, other, Layout.isIndent_memberIndent startIndent before, lowered, ?_⟩
  have fieldLaid : LaysOut start (some ⟨.block, before⟩) (Java.Made.intField name)
      (Java.laidField ("\n" ++ margin) name) :=
    Java.laysOut_field (leading_intField name (by simp [before, more]) _)
  have braceLaid : LaysOut behind (some ⟨.block, Java.Made.intField name :: before⟩) other.content
      other.content := .of_explicit (lowered.respaced.explicit below.2)
  have laid : LayOutAll (page.inside .block leading) .block []
      (inside.map content ++ [Java.Made.intField name, brace.content])
      (inside.map content ++ [Java.laidField ("\n" ++ margin) name, other.content]) :=
    .explicit_append below.1 (fun _ _ absent => absurd absent List.not_mem_nil)
      (.cons_of_formatted (fun _ => formatted_behind below.1) fieldLaid
        (.cons (settled.symm ▸ braceLaid) .nil))
  rw [withMember_of_children rfl, content_withChildren, content_withChildren]
  simp only [List.map_append, List.map_cons, List.map_nil, made, Java.content_laidField, content_mk]
  refine .of_children isLeading rfl noText regular.trailing (by simp) ?_
  rw [show (headContent head).kind = .block from isBlock]
  exact laid

end Printer

namespace Java

/-! ## Bodies of types -/

/-- The body of a type in a file that was read: what stands in front of its brace ends in a
token that nothing is lost behind, and there it is read with one member more. -/
structure Body (text : String) (file block brace : Node) (path : List Nat) (inside : List Node) :
    Prop where
  children : block.children = inside ++ [brace]
  isBrace : brace.bare = (Node.token .punctuation "\x7d").bare
  closes : ∃ start, ∃ closer ∈ lexemes text, closer.IsCloser ∧
    (inside.flatMap Node.tokens).map Prod.snd = start ++ [closer.text]
  enlarged : ∀ {made : List Lexeme} {node : Node}, MadeMember made node → ∃ left root,
    (∀ token ∈ left, token ∈ lexemes text ∨ token ∈ made) ∧
    Reads takeLexeme Rule.body (.rule .compilationUnit) left (some ([root], [])) ∧
    root.bare = (file.replaceAt (block.withChildren (inside ++ [node, brace])) path).bare

section

variable {text : String} {read file inner block : Node} {path : List Nat} {place : Nat}
  (parsed : parse text = .ok read) (same : file.content = read.content)
  (found : file.descendant? path = some inner) (isClass : inner.kind = .classDecl)
  (inPlace : inner.children[place]? = some block) (isBlock : block.kind = .block)

include parsed same found isClass inPlace isBlock

theorem exists_body : ∃ brace inside, Body text file block brace (path ++ [place]) inside := by
  rcases reads_of_parse parsed with ⟨root, reads, rootBare⟩
  have bare : file.bare = root.bare := by rw [← bare_content, same, bare_content, rootBare]
  -- the class and its body in the tree that the grammar gives
  have inRoot : (root.descendant? path).map Node.bare = some inner.bare := by
    rw [Node.bare, ← descendant?_mapHeads, ← Node.bare, ← bare,
      Node.bare, descendant?_mapHeads, found]
    rfl
  rcases Option.map_eq_some_iff.1 inRoot with ⟨class_, classFound, classBare⟩
  have inClass : (class_.children[place]?).map Node.bare = some block.bare := by
    rw [← List.getElem?_map, ← children_bare, classBare, children_bare, List.getElem?_map, inPlace]
    rfl
  rcases Option.map_eq_some_iff.1 inClass with ⟨body, bodyFound, bodyBare⟩
  have room := hasRoom_of_compilationUnit reads classFound
    (by rw [← kind_bare, classBare, kind_bare, isClass]) bodyFound
    (by rw [← kind_bare, bodyBare, kind_bare, isBlock])
  rcases room.exists_brace with
    ⟨head, token, closer, start, rfl, isBrace, known, isCloser, texts, enlarged⟩
  have blockBare : block.bare = (Node.branch .block (head ++ [token.node .punctuation])).bare := by
    rw [← bodyBare, Grammar.grow, bare_withLeading]
  have childrenBare := congrArg Node.children blockBare
  rw [children_bare, children_bare] at childrenBare
  rcases List.map_eq_append_iff.1 (childrenBare.trans List.map_append) with
    ⟨inside, last, children, insideBare, lastBare⟩
  rcases List.map_eq_singleton_iff.1 lastBare with ⟨brace, rfl, braceBare⟩
  refine ⟨brace, inside, children, ?_, ⟨start, closer, known, isCloser, ?_⟩,
    fun {made node} member => ?_⟩
  · have spelled : token.text = "\x7d" := (Prod.mk.inj (shape_of_accepts isBrace)).2
    rw [braceBare, bare_node, spelled]
  · have sameTokens : inside.flatMap Node.tokens = head.flatMap Node.tokens := by
      have tokens (nodes : List Node) :
          nodes.flatMap Node.tokens = (nodes.map Node.bare).flatMap Node.tokens := by
        simp only [List.flatMap_map, tokens_bare]
      rw [tokens, insideBare, ← tokens]
    rw [sameTokens, texts]
  · rcases enlarged member with ⟨left, known, again⟩
    refine ⟨left, _, known, again, ?_⟩
    have blockHead : bareHead block.toNodeHead = bareHead (Node.branch .block []).toNodeHead := by
      have heads := congrArg Node.toNodeHead blockBare
      rcases block with ⟨head, nodes⟩
      exact heads
    rw [bare_replaceAt, bare_replaceAt, bare]
    congr 1
    rw [Grammar.grow, bare_withLeading, Node.branch, withChildren, bare_mk, bare_mk]
    simp only [List.map_append, List.map_cons, List.map_nil, insideBare, braceBare]
    exact congrArg (Node.mk · _) blockHead.symm

end

/-! ## The tokens -/

/-- A token at the end of a member or a value is cut as it is in front of anything that does not
go on with a word, and its last character keeps apart what stands around it. -/
theorem Lexeme.IsCloser.ends {token : Lexeme} (isCloser : token.IsCloser) {rest : List Char}
    (cut : token.tokenClass.cut (token.text.toList ++ rest) = some (token.text.toList, rest)) :
    (∃ start c, token.text.toList = start ++ [c] ∧ isJoint c = true) ∧
      ∀ other, (∀ c more, other = c :: more → isWordPart c = false) →
        token.tokenClass.cut (token.text.toList ++ other) = some (token.text.toList, other) := by
  rcases isCloser with ⟨wanted, isCloser, accepted⟩
  rcases Option.isSome_iff_exists.1 accepted with ⟨kind, accepted⟩
  cases wanted with
  | identifier =>
      have isWord_ : token.tokenClass = .word := by
        cases tokenClass : token.tokenClass <;> simp [Wanted.accepts, tokenClass] at accepted
        rfl
      rw [isWord_] at cut ⊢
      have word := (cutWord_eq_some_iff.1 cut).1
      rcases isWord_iff.1 word with ⟨first, more, spelled, -, parts⟩
      have nonempty : token.text.toList ≠ [] := spelled ▸ List.cons_ne_nil first more
      have ends := List.dropLast_append_getLast nonempty
      have joint := isJoint_of_isWordPart (parts _ (List.getLast_mem nonempty))
      exact ⟨⟨_, _, ends.symm, joint⟩, fun other goesOn => cutWord_eq_some_iff.2 ⟨word, goesOn⟩⟩
  | punctuation text =>
      rcases Prod.mk.inj (shape_of_accepts accepted) with ⟨tokenClass, spelled⟩
      have marks : text = "\x7b" ∨ text = "\x7d" ∨ text = ";" ∨ text = "," ∨ text = ")" := by
        simpa [Wanted.isCloser] using isCloser
      rw [tokenClass, spelled]
      rcases marks with rfl | rfl | rfl | rfl | rfl <;>
        exact ⟨⟨[], _, rfl, by decide⟩, fun _ _ => rfl⟩
  | _ => cases isCloser

section

variable {margin name : String} (isIndent : Text.IsIndent margin) (word : isWord name.toList = true)

include isIndent word

theorem exists_tokens_with_field {front back : List Lexeme} {last : Lexeme}
    (apart : FallsApart (front ++ last :: back)) (isCloser : last.IsCloser) {brace other : Node}
    (lifted : brace.Everywhere Lifted) (respaced : RespacedNode brace other) {leaves : List Leaf}
    (areLeaves : List.Forall₂ IsLeafOf back (brace.leaves ++ leaves)) :
    ∃ others, FallsApart (front ++ last :: (fieldLexemes ("\n" ++ margin) name ++ others)) ∧
      List.Forall₂ IsLeafOf others (other.leaves ++ leaves) := by
  have more := ne_nil_of_leaves lifted areLeaves
  have behind : FallsApart (last :: back) := by
    rw [FallsApart, charactersOf_append] at apart
    exact apart.behind (List.cons_ne_nil last back)
  rcases isCloser.ends ((fallsApart_cons_iff more).1 behind).2.1 with
    ⟨⟨start, c, ends, joint⟩, closed⟩
  refine (insertable_field isIndent.isSpace word).exists_tokens apart ends joint (fun others => ?_)
    lifted respaced areLeaves
  refine closed _ fun c more equal => ?_
  rw [fieldLexemes, List.cons_append, charactersOf_made, String.toList_append] at equal
  rw [← (List.cons.inj equal).1]
  decide

end

/-! ## The file -/

def withLaidField (file block : Node) (path : List Nat) (inside : List Node) (margin name : String)
    (brace : Node) : Node :=
  file.replaceAt (block.withChildren (inside ++ [laidField ("\n" ++ margin) name, brace])) path

section

variable {text : String} {read file block brace : Node} {path : List Nat} {inside : List Node}
  (parsed : parse text = .ok read) (same : file.content = read.content)
  (body : Body text file block brace path inside) (found : file.descendant? path = some block)
  {margin name : String} (isIndent : Text.IsIndent margin) (word : isWord name.toList = true)
  (free : isReserved name = false) {other : Node} (respaced : RespacedNode brace other)

include body in
theorem Body.more : inside ≠ [] := by
  rintro rfl
  rcases body.closes with ⟨start, closer, -, -, texts⟩
  simp at texts

include parsed same in
theorem regular_of_content : file.Everywhere Regular := by
  rw [← everywhere_regular_bare_iff, ← bare_content, same, bare_content,
    everywhere_regular_bare_iff]
  exact (parse_readFrom parsed).regular

include parsed same body found in
/-- A file with a field in a body is printed with all that the layout adds. -/
theorem prints_withMember {member : Node} (isBlock : block.kind = .block)
    (faithful : file.Everywhere Faithful) (memberFaithful : member.Everywhere Faithful)
    (made : member.content = Made.intField name) :
    ∃ margin other, Text.IsIndent margin ∧ Lowered brace other ∧
      (file.replaceAt (block.withMember member) path).print =
        .ok (withLaidField file block path inside margin name other).written ∧
      ∃ resolved, (file.replaceAt (block.withMember member) path).resolveFormatting = .ok resolved ∧
        resolved.content =
          (withLaidField file block path inside margin name other).hoist.content := by
  have inFile := mem_preorder_of_descendant? found
  have explicit := everywhere_explicit_of_content same (explicit_of_parse parsed)
  have regular := regular_of_content parsed same
  have blockFaithful := faithful.below inFile
  have allFaithful : (file.replaceAt (block.withMember member) path).Everywhere Faithful := by
    refine faithful.replaceAt (fun _ _ _ => aboutOrigins_faithful _ rfl) ?_ path
    rw [withMember_of_children body.children]
    refine aboutOrigins_faithful.everywhere rfl (List.forall_mem_append.2 ⟨fun node member => ?_,
      List.forall_mem_cons.2 ⟨memberFaithful, List.forall_mem_singleton.2 ?_⟩⟩)
    · exact blockFaithful.child (body.children ▸ List.mem_append_left _ member)
    · exact blockFaithful.child (by rw [body.children]; simp)
  have onMargin : Text.IsIndent (Printer.Page.blockIndent ⟨"", []⟩) :=
    fun _ absent => nomatch absent
  rcases Printer.exists_laysOut_at explicit regular found onMargin none with
    ⟨page, place, isIndent, laysOutAt⟩
  rcases Printer.exists_laysOut_withMember (explicit.below inFile)
    (regular.below inFile).here isBlock
    body.children body.more made isIndent place with ⟨margin, other, isMargin, lowered, blockLaid⟩
  have formatted : (block.withMember member).content.Formatted := by
    rw [Formatted, leading_content]
    exact (explicit.below inFile).here.formatted
  have laysOut := laysOutAt formatted blockLaid
  rw [← content_replaceAt, ← content_replaceAt] at laysOut
  have printed := prints_of_laysOut allFaithful laysOut
  rw [written_content, content_hoist, content_content, ← content_hoist] at printed
  exact ⟨margin, other, isMargin, lowered, printed⟩

include parsed same body found isIndent word free respaced

theorem exists_tokens_of_file : ∃ others, FallsApart others ∧
    List.Forall₂ IsLeafOf others
      (withLaidField file block path inside margin name other).leaves := by
  have apart := fallsApart_lexemes parsed
  have areLeaves : List.Forall₂ IsLeafOf (lexemes text) file.leaves := by
    rw [← leaves_content, same, leaves_content]
    exact leaves_of_parse parsed
  have inFile := mem_preorder_of_descendant? found
  have lifted := (everywhere_lifted_of_content same (lifted_of_parse parsed)).below inFile
  have regular := (regular_of_content parsed same).below inFile
  have more := body.more
  rcases body.closes with ⟨start, closer, known, isCloser, texts⟩
  rcases exists_leaves_around found [] with ⟨before, inFront, behind, own, around⟩
  rw [Node.leaves, withLaidField, around]
  rw [Node.leaves, own] at areLeaves
  have children := body.children
  rcases block with ⟨head, nodes⟩
  obtain rfl : nodes = inside ++ [brace] := children
  rw [leavesBehind_append _ _ more, List.flatMap_singleton, List.append_assoc, ← List.append_assoc]
    at areLeaves
  have sameFront : ownFront { head with origin := none } = ownFront head := rfl
  rw [withChildren, leavesBehind_append _ _ more, sameFront]
  rcases exists_split_of_leaves areLeaves with ⟨front, back, tokens, frontLeaves, backLeaves⟩
  -- the last token in front of the brace is spelled like the one that the grammar ends in
  have frontTexts := (map_of_isLeafOf frontLeaves).2.1
  rw [List.filterMap_append, filterMap_text_leavesOfAll (fun node member => (regular.child
    (List.mem_append_left _ member)).mono fun _ => Regular.textOrChildren),
    texts, ← List.append_assoc]
    at frontTexts
  rcases List.map_eq_append_iff.1 frontTexts.symm with ⟨front, _, rfl, -, lastText⟩
  rcases List.map_eq_singleton_iff.1 lastText with ⟨last, rfl, -⟩
  have lastKnown : last ∈ lexemes text := by
    rw [tokens]
    simp
  have lastShape := Lexeme.shape_eq_of_text (plain_of_parse parsed last lastKnown)
    (plain_of_parse parsed closer known)
    (List.cons.inj lastText).1
  have lastCloses : last.IsCloser := by
    rcases isCloser with ⟨wanted, isCloser, accepted⟩
    exact ⟨wanted, isCloser, accepts_of_shape lastShape wanted ▸ accepted⟩
  rw [tokens, List.append_assoc, List.singleton_append] at apart
  rcases exists_tokens_with_field isIndent word apart lastCloses
    (lifted.child (by simp)) respaced backLeaves
    with ⟨others, again, othersLeaves⟩
  refine ⟨_, again, ?_⟩
  have fieldLeaves := @leaves_field ("\n" ++ margin) name free
  simpa using List.rel_append frontLeaves (List.rel_append fieldLeaves othersLeaves)

theorem parse_withLaidField : ∃ reparsed,
    parse (withLaidField file block path inside margin name other).written = .ok reparsed ∧
      reparsed.content =
        (withLaidField file block path inside margin name other).hoist.content := by
  rcases exists_tokens_of_file parsed same body found isIndent word free respaced with
    ⟨others, apart, areLeaves⟩
  rcases body.enlarged (@madeMember_field ("\n" ++ margin) name free) with
    ⟨left, root, known, reads, bare⟩
  have explicit := everywhere_explicit_of_content same (explicit_of_parse parsed)
  have formatted : (withLaidField file block path inside margin name other).Everywhere
      Formatted := by
    have inBlock := explicit.below (mem_preorder_of_descendant? found)
    refine (explicit.mono fun _ => Explicit.formatted).replaceAt
      (fun _ _ formatted => formatted) ?_ path
    refine everywhere_iff.2 ⟨inBlock.here.formatted, ?_⟩
    have below : ∀ node ∈ inside ++ [brace], node.Everywhere Explicit :=
      fun node member => inBlock.child (body.children ▸ member)
    rw [List.forall_mem_append, List.forall_mem_singleton] at below
    refine List.forall_mem_append.2 ⟨fun node member => ?_,
      List.forall_mem_cons.2 ⟨formatted_field, List.forall_mem_singleton.2 ?_⟩⟩
    · exact (below.1 node member).mono fun _ => Explicit.formatted
    · exact (respaced.explicit below.2).mono fun _ => Explicit.formatted
  have plain : ∀ token ∈ left, token.Plain := by
    intro token member
    rcases known token member with inText | inField
    · exact plain_of_parse parsed token inText
    · exact (insertable_field isIndent.isSpace word).plain (leaves_field free) parsed token inField
  refine parse_written apart reads plain (bare.trans ?_) formatted areLeaves
  rw [withLaidField, bare_replaceAt, bare_replaceAt, withChildren, withChildren, bare_mk, bare_mk]
  simp only [List.map_append, List.map_cons, List.map_nil, respaced.bare_eq,
    bare_fieldRead ("\n" ++ margin)]

end

/-! ## The text -/

theorem written_laidField (leading name : String) :
    (laidField leading name).written = leading ++ "int " ++ name ++ ";" := by
  have nothing : Trivia.empty.text = "" := rfl
  simp [laidField, Node.branch, Node.token, withLeading, written,
    writtenOfAll, Trivia.text_ofWhitespace, nothing, ← String.append_assoc]

theorem written_brace {brace : Node}
    (isBrace : brace.bare = (Node.token .punctuation "\x7d").bare) :
    brace.written = brace.leadingOrEmpty.text ++ "\x7d" := by
  rcases brace with ⟨head, children⟩
  rw [Node.token, bare_mk, bare_mk] at isBrace
  rcases Node.mk.inj isBrace with ⟨heads, nodes⟩
  obtain rfl : children = [] := List.map_eq_nil_iff.1 nodes
  have isText : head.text = some "\x7d" := congrArg NodeHead.text heads
  have noTrailing : head.trailing = .empty := congrArg NodeHead.trailing heads
  rw [written, isText, noTrailing]
  exact String.append_empty.trans String.append_empty

section

variable {text : String} {file block brace : Node} {path : List Nat} {inside : List Node}
  (body : Body text file block brace path inside) (found : file.descendant? path = some block)
  {start stop : Nat}
  (lies : file.Sealed text start stop)

include body found lies

theorem exists_text_of_file : ∃ front behind,
    file.written = front ++ (brace.written ++ behind) ∧
    brace.begins = some (start + front.utf8ByteSize + brace.leadingOrEmpty.text.utf8ByteSize) ∧
    ∀ margin name other, (withLaidField file block path inside margin name other).written =
      front ++ ((laidField ("\n" ++ margin) name).written ++ (other.written ++ behind)) := by
  rcases lies.exists_text_around found with ⟨before, after, _, _, blockLies, rfl, own, around⟩
  have children := body.children
  rcases block with ⟨head, nodes⟩
  obtain rfl : nodes = inside ++ [brace] := children
  rcases blockLies.exists_children with ⟨leading, _, _, isLeading, ⟨next, braceLies, -⟩, rfl⟩
  rcases braceLies.exists_origin with ⟨origin, isOrigin, -, begins, -⟩
  refine ⟨before ++ (leading.text ++ head.text.getD "" ++ writtenOfAll inside),
    head.trailing.text ++ after, ?_, ?_, fun margin name other => ?_⟩
  · rw [own, written, isLeading, writtenOfAll_append]
    simp only [Option.getD_some, String.append_assoc, writtenOfAll, String.append_empty]
  · rw [Node.begins, isOrigin, Option.map_some, begins, Nat.add_assoc start,
      ← String.utf8ByteSize_append]
  · rw [withLaidField, around, withChildren, written, isLeading, writtenOfAll_append]
    simp only [Option.getD_some, String.append_assoc, writtenOfAll, String.append_empty]

end

/-- Behind the last member of a class, in front of the brace, a field can be put. What is then
printed is read back as the tree that was printed, with all its formatting explicit. The text
has the field on a line of its own in front of the brace, and is otherwise as it was, but for
the blanks in front of a brace on the line of the last member, if there is nothing else: they
become a line break. -/
theorem inserting_field_reads_back {text : String} {read inner block member : Node}
    (parsed : parse text = .ok read) (first : Nat) {path : List Nat} {place : Nat}
    (found : (read.number first).1.descendant? path = some inner)
    (isClass : inner.kind = .classDecl)
    (inPlace : inner.children[place]? = some block) (isBlock : block.kind = .block) {name : String}
    (word : isWord name.toList = true) (free : isReserved name = false)
    (isField : member.withoutIds = (Made.intField name).withoutIds) :
    ∃ printed resolved reparsed,
      ((read.number first).1.replaceAt (block.withMember member) (path ++ [place])).print =
        .ok printed ∧
      ((read.number first).1.replaceAt (block.withMember member)
        (path ++ [place])).resolveFormatting =
        .ok resolved ∧
      parse printed = .ok reparsed ∧ reparsed.contentEq resolved = true ∧
      ∃ inside brace other front behind margin, block.children = inside ++ [brace] ∧
        brace.isPunctuation "\x7d" = true ∧ Lowered brace other ∧ Text.IsIndent margin ∧
        brace.begins = some (front ++ brace.leadingOrEmpty.text).utf8ByteSize ∧
        text = front ++ (brace.leadingOrEmpty.text ++ "\x7d" ++ behind) ∧
        printed = front ++ ("\n" ++ margin ++ "int " ++ name ++ ";") ++
          (other.leadingOrEmpty.text ++ "\x7d" ++ behind) := by
  have same : (read.number first).1.content = read.content := content_number read first
  have lies : (read.number first).1.Sealed text 0 text.utf8ByteSize := by
    rw [← sealed_withoutIds, withoutIds_number, sealed_withoutIds]
    exact (parse_readFrom parsed).lies
  have written_ : (read.number first).1.written = text := by
    rw [← written_content, same, written_content, (parse_readFrom parsed).written]
  have isContent : member.content = Made.intField name := by
    rw [← content_withoutIds, isField, content_withoutIds, content_intField]
  rcases exists_body parsed same found isClass inPlace isBlock with ⟨brace, inside, body⟩
  have blockFound : (read.number first).1.descendant? (path ++ [place]) = some block := by
    rw [descendant?_append, found, Option.bind_some, descendant?, inPlace]
    rfl
  generalize path ++ [place] = whole at body blockFound ⊢
  have faithful : (read.number first).1.Everywhere Faithful :=
    everywhere_faithful_of_withoutIds_eq (withoutIds_number read first)
      (parse_readFrom parsed).everywhere_faithful
  rcases prints_withMember parsed same body blockFound isBlock faithful
    (everywhere_faithful_of_withoutIds_eq isField (faithful_intField name)) isContent with
    ⟨margin, other, isIndent, lowered, prints, resolved, resolves, resolvedContent⟩
  rcases parse_withLaidField parsed same body blockFound isIndent word free lowered.respaced with
    ⟨reparsed, again, reparsedContent⟩
  rcases exists_text_of_file body blockFound lies with ⟨front, behind, own, begins, around⟩
  refine ⟨_, resolved, reparsed, prints, resolves, again,
    contentEq_iff_content.2 (reparsedContent.trans resolvedContent.symm),
    inside, brace, other, front, behind, margin, body.children, ?_, lowered, isIndent, ?_, ?_, ?_⟩
  · rw [Node.isPunctuation, ← is_bare, ← text_bare, body.isBrace]
    rfl
  · rw [begins, Nat.zero_add, String.utf8ByteSize_append]
  · rw [← written_brace body.isBrace, ← own, written_]
  · rw [around, written_laidField, written_brace (lowered.respaced.bare_eq.trans body.isBrace)]
    simp only [String.append_assoc]

/-- In a class on one line a field goes to a line of its own, and so does the brace. -/
theorem inserting_field_reads_back_of_line :
    ∃ read inner block printed resolved reparsed,
      parse "class A \x7b int y; \x7d" = .ok read ∧
      (read.number 1).1.descendant? [0] = some inner ∧ inner.children[2]? = some block ∧
      ((read.number 1).1.replaceAt (block.withMember ((Made.intField "x").number 100).1)
        [0, 2]).print =
        .ok printed ∧
      ((read.number 1).1.replaceAt (block.withMember ((Made.intField "x").number 100).1)
        [0, 2]).resolveFormatting = .ok resolved ∧
      parse printed = .ok reparsed ∧ reparsed.contentEq resolved = true := by
  have evaluated : (parse "class A \x7b int y; \x7d").toOption.map (fun read =>
      ((read.number 1).1.descendant? [0]).map fun inner =>
        (inner.kind, inner.children[2]?.map fun block => block.kind)) =
      some (some (.classDecl, some .block)) := by decide +kernel
  cases parsed : parse "class A \x7b int y; \x7d" with
  | error error =>
      rw [parsed] at evaluated
      cases evaluated
  | ok read =>
      rw [parsed] at evaluated
      rcases Option.map_eq_some_iff.1 (Option.some.inj evaluated) with ⟨inner, found, kinds⟩
      rcases Prod.mk.inj kinds with ⟨isClass, blocks⟩
      rcases Option.map_eq_some_iff.1 blocks with ⟨block, inPlace, isBlock⟩
      rcases inserting_field_reads_back parsed 1 found isClass inPlace isBlock (by decide)
        (by decide) (withoutIds_number (Made.intField "x") 100) with
        ⟨printed, resolved, reparsed, prints, resolves, again, equal, -⟩
      exact ⟨read, inner, block, printed, resolved, reparsed,
        rfl, found, inPlace, prints, resolves, again, equal⟩

end Java

end Verbatim
