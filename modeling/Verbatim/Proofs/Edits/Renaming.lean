import Verbatim.Proofs.Edits.Building
import Verbatim.Proofs.Edits.Heads
import Verbatim.Proofs.Java.Carrying
import Verbatim.Proofs.Java.Respelling
import Verbatim.Proofs.Printing.Laying
import Verbatim.Proofs.Traversal.Relating
import Verbatim.Proofs.Tree.Respacing

/-! Files with renamed identifiers as texts. A renamed file is read as the tree that was printed
unless a name is reserved, goes on with the number in front of it, or lets a block become the
body of the value in front of it. -/

namespace Verbatim

namespace Node

/-! ## Trees with other names -/

def unspelledHead (head : NodeHead) : NodeHead :=
  { head with text := head.text.map fun _ => "", origin := none }

/-- The head, with another name if it is that of an identifier. -/
structure RenamedHead (old new : NodeHead) : Prop where
  rest : unspelledHead new = unspelledHead old
  text : new.text = old.text ∨
    old.kind = .identifier ∧ ∃ name, Java.isIdentifier name = true ∧ new.text = some name

namespace RenamedHead

theorem kind {old new : NodeHead} (renamed : RenamedHead old new) : new.kind = old.kind :=
  (congrArg NodeHead.kind renamed.rest :)

theorem leading {old new : NodeHead} (renamed : RenamedHead old new) : new.leading = old.leading :=
  (congrArg NodeHead.leading renamed.rest :)

theorem ownFront {old new : NodeHead} (renamed : RenamedHead old new) :
    List.Forall₂ Eq (ownFront old) (ownFront new) := by
  rw [List.forall₂_eq_eq_eq, ownFront_eq, ownFront_eq, renamed.leading]

end RenamedHead

structure Leaf.Renamed (old new : Leaf) : Prop where
  fronts : new.fronts = old.fronts
  kind : new.kind = old.kind
  text : new.text = old.text ∨
    old.kind = .identifier ∧ ∃ name, Java.isIdentifier name = true ∧ new.text = some name

theorem everywhere_formatted_unspelled {node other : Node}
    (same : other.mapHeads unspelledHead = node.mapHeads unspelledHead)
    (formatted : node.Everywhere Formatted) : other.Everywhere Formatted := by
  refine everywhere_of_mapHeads_eq (fun node => ?_) same formatted
  rw [Formatted, toNodeHead_mapHeads]
  rfl

theorem everywhere_lifted_unspelled {node other : Node}
    (same : other.mapHeads unspelledHead = node.mapHeads unspelledHead)
    (lifted : node.Everywhere Lifted) : other.Everywhere Lifted := by
  refine everywhere_of_mapHeads_eq (fun node => ?_) same lifted
  rw [Lifted, Lifted, children_mapHeads, List.head?_map]
  cases node.children with
  | nil => simp
  | cons first rest => simp [hasLeading, leadingOrEmpty, toNodeHead_mapHeads, unspelledHead]

theorem everywhere_regular_unspelled {node other : Node}
    (same : other.mapHeads unspelledHead = node.mapHeads unspelledHead)
    (regular : node.Everywhere Regular) : other.Everywhere Regular := by
  have blind := @regular_mapHeads unspelledHead fun head => ⟨rfl, rfl, Option.isSome_map⟩
  exact everywhere_of_mapHeads_eq blind same regular

section

variable {node other : Node} (alike : node.Alike RenamedHead other)

include alike

theorem unspelled_renamed : other.mapHeads unspelledHead = node.mapHeads unspelledHead :=
  alike.mapHeads_eq fun related => related.rest

theorem frame_renamed : other.frame = node.frame :=
  alike.mapHeads_eq fun {head other} related => by
    have heads := congrArg bareHead related.rest
    exact heads

theorem leaves_renamed : List.Forall₂ Leaf.Renamed node.leaves other.leaves := by
  refine alike.leavesBehind ⟨RenamedHead.ownFront, fun here before => ?_⟩ .nil
  rw [List.forall₂_eq_eq_eq] at before
  exact ⟨before.symm, here.kind, here.text⟩

end

/-- The second leaf does not go on with the first one if that is a number. -/
def Leaf.Apart (first second : Leaf) : Prop :=
  (first.text.getD "").toList.head?.any Char.isDigit = true →
    String.join (second.fronts.map Trivia.text) = "" →
      (second.text.getD "").toList.head?.any Java.isNumberPart = false

end Node

open Node

namespace Java

/-! ## Texts with other names -/

theorem isChain_apart_iff {tokens : List Lexeme} {leaves : List Leaf}
    (areLeaves : List.Forall₂ IsLeafOf tokens leaves) :
    tokens.IsChain Lexeme.Apart ↔ leaves.IsChain Leaf.Apart := by
  induction areLeaves with
  | nil => simp
  | @cons token leaf _ _ isLeaf later induction =>
      cases later with
      | nil => simp
      | @cons next nextLeaf _ _ isNext _ =>
          have here : token.Apart next ↔ leaf.Apart nextLeaf := by
            rw [Lexeme.Apart, EndsNumber, Leaf.Apart, isNext.join_fronts, isLeaf.text, isNext.text,
              Option.getD_some, Option.getD_some]
          rw [List.isChain_cons_cons, List.isChain_cons_cons, here, induction]

theorem IsLeafOf.renamed {token : Lexeme} {leaf other : Leaf} (isLeaf : IsLeafOf token leaf)
    (renamed : leaf.Renamed other) (plain : token.Plain)
    (free : other.kind = .identifier → ∀ name ∈ other.text, isReserved name = false) :
    ∃ new : Lexeme, IsLeafOf new other ∧ Respelled token new ∧ new.Plain ∧
      (new.text = token.text ∨ leaf.kind = .identifier ∧ new.Free) := by
  rcases renamed.text with same | ⟨isIdentifier, name, valid, text⟩
  · refine ⟨token, ⟨renamed.fronts.trans isLeaf.fronts, same.trans isLeaf.text, ?_⟩,
      ⟨rfl, rfl, .inl rfl⟩, plain, .inl rfl⟩
    rw [renamed.kind]
    exact isLeaf.kind
  · have isWord := (isLeaf.free isIdentifier).1
    have notReserved := free (renamed.kind.trans isIdentifier) name text
    refine ⟨{ token with text := name },
      ⟨renamed.fronts.trans isLeaf.fronts, text, .identifier, ?_⟩,
      ⟨rfl, rfl, .inr ⟨isWord, valid⟩⟩, ?_, .inr ⟨isIdentifier, isWord, notReserved⟩⟩
    · rw [renamed.kind, isIdentifier]
      simp [Wanted.accepts, isWord, notReserved]
    · rcases isWord_iff.1 valid with ⟨first, rest, equal, starts, -⟩
      rw [Lexeme.Plain]
      simp only [equal, isWord]
      exact starts

theorem exists_renamed {tokens : List Lexeme} {leaves others : List Leaf}
    (areLeaves : List.Forall₂ IsLeafOf tokens leaves)
    (renamed : List.Forall₂ Leaf.Renamed leaves others)
    (plain : ∀ token ∈ tokens, token.Plain)
    (free : ∀ leaf ∈ others, leaf.kind = .identifier → ∀ name ∈ leaf.text,
      isReserved name = false) :
    ∃ news, List.Forall₂ IsLeafOf news others ∧ List.Forall₂ Respelled tokens news ∧
      List.Forall₂ (fun (token : Kind × String) other => other.Plain ∧
        (other.text = token.2 ∨ token.1 = .identifier ∧ other.Free))
        (leaves.filterMap fun leaf => leaf.text.map (leaf.kind, ·)) news := by
  induction renamed generalizing tokens with
  | nil =>
      cases areLeaves
      exact ⟨[], .nil, .nil, .nil⟩
  | @cons leaf _ _ _ here _ induction =>
      cases areLeaves with
      | cons isLeaf later =>
          rw [List.forall_mem_cons] at plain free
          rcases isLeaf.renamed here plain.1 free.1 with ⟨new, isNew, respelled, isPlain, word⟩
          rcases induction later plain.2 free.2 with ⟨news, areNew, respelledAll, words⟩
          refine ⟨new :: news, .cons isNew areNew, .cons respelled respelledAll, ?_⟩
          rw [List.filterMap_cons, isLeaf.text]
          exact .cons ⟨isPlain, word⟩ words

/-- A file with other names is written as a text that is read as that file. -/
theorem parse_written_of_renamed {text : String} {read other : Node}
    (parsed : parse text = .ok read)
    (alike : read.Alike RenamedHead other)
    (free : ∀ leaf ∈ other.leaves, leaf.kind = .identifier →
      ∀ name ∈ leaf.text, isReserved name = false)
    (apart : other.leaves.IsChain Leaf.Apart)
    (leavesBlocks : other.Everywhere fun part => part.children.IsChain LeavesBlock) :
    ∃ reparsed, parse other.written = .ok reparsed ∧ reparsed.content = other.content := by
  have readLeaves := leaves_of_parse parsed
  have regular := (parse_readFrom parsed).regular
  have unspelled := unspelled_renamed alike
  have otherRegular := everywhere_regular_unspelled unspelled regular
  have otherFormatted := everywhere_formatted_unspelled unspelled (formatted_of_parse parsed)
  rcases exists_renamed readLeaves (leaves_renamed alike) (plain_of_parse parsed) free with
    ⟨news, areLeaves, respelled, words⟩
  have cut :=
    ((fallsApart_lexemes parsed).respelled respelled ((isChain_apart_iff areLeaves).2 apart)).1
  have texts : other.tokens.map Prod.snd = news.map (·.text) := by
    rw [← (map_of_isLeafOf areLeaves).2.1, Node.leaves,
      filterMap_text_leavesBehind (otherRegular.mono fun _ => Regular.textOrChildren)]
  rcases reads_of_parse parsed with ⟨root, reads, rootBare⟩
  have frames : other.frame = root.frame := by
    rw [frame_renamed alike, ← frame_bare, rootBare, frame_bare]
  have rewords : Rewords [root] [other] news := by
    refine ⟨by rw [List.map_singleton, List.map_singleton, frames], ?_, ?_, ?_, .singleton _⟩
    · rw [List.flatMap_singleton, texts]
    · rw [List.flatMap_singleton, ← tokens_bare, ← rootBare, tokens_bare,
        ← filterMap_leavesBehind (regular.mono fun _ => Regular.textOrChildren) []]
      exact words
    · rw [List.forall_mem_singleton]
      exact leavesBlocks
  have carries : Carries Anything (.rule .compilationUnit) (lexemes text) [root] [] :=
    compilationUnit_carries reads
  rcases carries (plain_of_parse parsed) [other] news [] rewords .nil trivial with
    ⟨found, again, sameFrames⟩
  rw [List.append_nil] at again
  rw [List.map_singleton, List.map_eq_singleton_iff] at sameFrames
  rcases sameFrames with ⟨newRoot, rfl, newFrame⟩
  have newBare : newRoot.bare = other.bare := by
    refine bare_eq_of_frame (newFrame.trans frames.symm) ?_
    rcases again.yields rfl with ⟨taken, all, yields⟩
    rw [List.append_nil] at all
    rw [all] at texts
    rw [texts, ← yields.tokens, List.flatMap_singleton]
  rcases parse_written cut again rewords.plain newBare otherFormatted areLeaves with
    ⟨reparsed, accepted, content⟩
  exact ⟨reparsed, accepted, content.trans (content_hoist_of_lifted otherFormatted
    (everywhere_lifted_unspelled unspelled (lifted_of_parse parsed))
    (map_of_isLeafOf areLeaves).2.2.2)⟩

/-- What is read of a text has no reserved names, nothing that goes on with a number, and no
block that could be a body. -/
theorem conditions_of_parse {text : String} {read : Node} (parsed : parse text = .ok read) :
    (∀ leaf ∈ read.leaves, leaf.kind = .identifier → ∀ name ∈ leaf.text, isReserved name = false) ∧
      read.leaves.IsChain Leaf.Apart ∧
      read.Everywhere fun part => part.children.IsChain LeavesBlock := by
  have areLeaves := leaves_of_parse parsed
  refine ⟨fun leaf member isIdentifier name named => ?_, ?_, leavesBlock_of_parse parsed⟩
  · rcases exists_isLeafOf areLeaves member with ⟨token, -, isLeaf⟩
    rw [isLeaf.text, Option.mem_some_iff] at named
    exact named ▸ isLeaf.not_isReserved isIdentifier
  · exact (isChain_apart_iff areLeaves).1 (fallsApart_lexemes parsed).isChain

end Java

namespace RenameIdentifier

theorem isIdentifier_of_ofSettings {settings : Settings} {edit : RenameIdentifier}
    (accepted : ofSettings settings = .ok edit) :
    Java.isIdentifier edit.old = true ∧ Java.isIdentifier edit.new = true := by
  rw [ofSettings] at accepted
  cases only : settings.expectOnly ["from", "to"] with
  | error fault =>
      rw [only] at accepted
      cases accepted
  | ok _ =>
      cases from_ : settings.requiredText "from" with
      | error fault =>
          rw [only, from_] at accepted
          cases accepted
      | ok old =>
          cases to_ : settings.requiredText "to" with
          | error fault =>
              rw [only, from_, to_] at accepted
              cases accepted
          | ok new =>
              simp only [only, from_, to_, bind, Except.bind, checkName] at accepted
              cases validOld : Java.isIdentifier old <;> cases validNew : Java.isIdentifier new <;>
                simp only [validOld, validNew, if_true, Bool.false_eq_true,
                  if_false] at accepted <;>
                cases accepted
              exact ⟨validOld, validNew⟩

/-- The tree with the new name for every identifier that had the old one. -/
def renamed (edit : RenameIdentifier) : Node → Node := mapHeads fun head =>
  if head.kind = .identifier ∧ head.text = some edit.old then { head with text := some edit.new }
  else head

theorem content_renamed (edit : RenameIdentifier) (node : Node) :
    (edit.renamed node).content = node.mapHeads (headContent ∘ edit.headEdit.head) := by
  rw [content_eq_mapHeads, renamed, mapHeads_mapHeads]
  refine congrArg (fun change => node.mapHeads change) (funext fun head => ?_)
  rw [Function.comp, Function.comp, HeadEdit.head, headEdit, HeadEdit.ofText]
  simp only [Bool.and_eq_true, decide_eq_true_eq]
  split <;> rfl

theorem alike_renamed {edit : RenameIdentifier} (valid : Java.isIdentifier edit.new = true)
    (node : Node) : node.Alike RenamedHead (edit.renamed node) := by
  refine alike_mapHeads (fun head => ?_) node
  split
  next concerned =>
    refine ⟨?_, .inr ⟨concerned.1, edit.new, valid, rfl⟩⟩
    rw [unspelledHead, unspelledHead, concerned.2]
    rfl
  next => exact ⟨rfl, .inl rfl⟩

theorem headEdit_settles {edit : RenameIdentifier} : edit.headEdit.Settles :=
  HeadEdit.ofText_settles ..

theorem explicit_renamed {text : String} {read other : Node} (parsed : Java.parse text = .ok read)
    (alike : read.Alike RenamedHead other) : other.Everywhere Explicit := by
  have unspelled := unspelled_renamed alike
  have formatted := everywhere_formatted_unspelled unspelled (Java.formatted_of_parse parsed)
  have regular := everywhere_regular_unspelled unspelled (Java.parse_readFrom parsed).regular
  exact fun part member => ⟨formatted part member, (regular part member).spelled⟩

/-- Renaming gives a tree that is always printed. What is printed is a file that is read back as
that tree if and only if none of the names in it is reserved, no name goes on with a number that
stands directly in front of it, and no block behind a value of an enumeration could be taken for
its body. -/
theorem renaming_reads_back_iff {settings : Settings} {edit : RenameIdentifier}
    (accepted : ofSettings settings = .ok edit) {text : String} {read : Node}
    (parsed : Java.parse text = .ok read) (first : Nat) {limits : WalkLimits}
    (time : limits.expired = false) {session : Session} (going : session.cancelled = false) :
    ∃ changed after printed,
      walk edit.visitor limits (read.number first).1 session = (.ok changed, after) ∧
      (changed.getD (read.number first).1).contentEq (edit.renamed read) = true ∧
      (changed.getD (read.number first).1).print = .ok printed ∧
      ((∃ reparsed, Java.parse printed = .ok reparsed ∧
          reparsed.contentEq (changed.getD (read.number first).1) = true) ↔
        (∀ leaf ∈ (edit.renamed read).leaves, leaf.kind = .identifier →
          ∀ name ∈ leaf.text, Java.isReserved name = false) ∧
        (edit.renamed read).leaves.IsChain Leaf.Apart ∧
        (edit.renamed read).Everywhere fun part => part.children.IsChain Java.LeavesBlock) := by
  have alike := alike_renamed (isIdentifier_of_ofSettings accepted).2 read
  have walked := walk_of_decides edit.decides time (read.number first).1 going
  have content :
      ((Look.become edit.headEdit.looks ((read.number first).1.height + limits.spareDepth)
      none (read.number first).1).getD (read.number first).1).content =
        (edit.renamed read).content := by
    rw [edit.headEdit.content_become none (Nat.le_add_right _ _), content_renamed,
      ← headEdit_settles.mapHeads_content, content_number, headEdit_settles.mapHeads_content]
  generalize Look.become edit.headEdit.looks _ none (read.number first).1 =
    changed at walked content
  have reachable : Reachable (read.number first).1 := .number first (.java parsed)
  have faithful : (changed.getD (read.number first).1).Everywhere Faithful := by
    cases changed with
    | none => exact reachable.everywhere_faithful fun _ absent => absent.elim
    | some new =>
        have reached := edit.builds.reachable reachable (congrArg Prod.fst walked)
        exact reached.everywhere_faithful fun _ absent => absent.elim
  rcases prints_of_content faithful (explicit_renamed parsed alike) content with ⟨printed, -⟩
  refine ⟨changed, _, _, walked, contentEq_iff_content.2 content,
    printed, ?_, fun ⟨free, apart, leaves⟩ => ?_⟩
  · rintro ⟨reparsed, again, equal⟩
    have same := (contentEq_iff_content.1 equal).trans content
    rcases Java.conditions_of_parse again with ⟨free, apart, leaves⟩
    rw [← leaves_content, same, leaves_content] at free apart
    refine ⟨free, apart, Java.everywhere_leavesBlock_of_bare ?_ leaves⟩
    rw [← bare_content, ← same, bare_content]
  · rcases Java.parse_written_of_renamed parsed alike free apart leaves with ⟨reparsed, again, same⟩
    exact ⟨reparsed, again, contentEq_iff_content.2 (same.trans content.symm)⟩

/-- A class can be called B, but not class; the text with that name is no file. -/
theorem renaming_reads_back_iff_of_class :
    (∃ read changed after printed reparsed, Java.parse "class A \x7b\x7d" = .ok read ∧
      walk (visitor ⟨"A", "B"⟩) .none (read.number 1).1 (.start 100 false) = (.ok changed, after) ∧
      (changed.getD (read.number 1).1).print = .ok printed ∧ Java.parse printed = .ok reparsed ∧
      reparsed.contentEq (changed.getD (read.number 1).1) = true) ∧
    ∃ read changed after printed, Java.parse "class A \x7b\x7d" = .ok read ∧
      walk (visitor ⟨"A", "class"⟩) .none (read.number 1).1 (.start 100 false) =
        (.ok changed, after) ∧
      (changed.getD (read.number 1).1).print = .ok printed ∧
      ¬∃ reparsed, Java.parse printed = .ok reparsed ∧
        reparsed.contentEq (changed.getD (read.number 1).1) = true := by
  have accepted {new : String} (evaluated : (ofSettings (.ofList name
      [("from", .string "A"), ("to", .string new)])).toOption = some ⟨"A", new⟩) :
      ofSettings (.ofList name [("from", .string "A"), ("to", .string new)]) = .ok ⟨"A", new⟩ := by
    cases outcome : ofSettings (.ofList name [("from", .string "A"), ("to", .string new)]) with
    | error fault =>
        rw [outcome] at evaluated
        cases evaluated
    | ok edit =>
        rw [outcome] at evaluated
        exact congrArg Except.ok (Option.some.inj evaluated)
  have time : WalkLimits.none.expired = false := rfl
  have going : (Session.start 100 false).cancelled = false := rfl
  have evaluated : (Java.parse "class A \x7b\x7d").toOption.map (fun read =>
      ((renamed ⟨"A", "B"⟩ read).leaves, (renamed ⟨"A", "class"⟩ read).leaves.any fun leaf =>
        leaf.kind = .identifier && leaf.text = some "class",
        (renamed ⟨"A", "B"⟩ read).preorder.all fun part => part.kind ≠ .enumValue)) =
      some ([⟨[], .keyword, some "class"⟩, ⟨[.ofWhitespace " "], .identifier, some "B"⟩,
        ⟨[.ofWhitespace " "], .punctuation, some "\x7b"⟩, ⟨[], .punctuation, some "\x7d"⟩,
        ⟨[], .endOfFile, some ""⟩], true, true) := by decide +kernel
  cases parsed : Java.parse "class A \x7b\x7d" with
  | error error =>
      rw [parsed] at evaluated
      cases evaluated
  | ok read =>
      rw [parsed] at evaluated
      rcases Prod.mk.inj (Option.some.inj evaluated) with ⟨leaves, others⟩
      rcases Prod.mk.inj others with ⟨named, noValue⟩
      constructor
      · rcases renaming_reads_back_iff (@accepted "B" (by decide)) parsed 1 time going with
          ⟨changed, after, printed, walked, -, prints, readsBack⟩
        have noValues : (renamed ⟨"A", "B"⟩ read).Everywhere fun part => part.kind ≠ .enumValue :=
          fun part member => of_decide_eq_true (List.all_eq_true.1 noValue part member)
        have leavesBlocks : (renamed ⟨"A", "B"⟩ read).Everywhere fun part =>
            part.children.IsChain Java.LeavesBlock := by
          intro part member
          have chain := Java.isChain_append_of_noValue
            (fun child inside => ((noValues.below member).child inside).here) .nil
          rwa [List.append_nil] at chain
        rw [leaves] at readsBack
        rcases readsBack.2 ⟨by decide, by simp [Leaf.Apart], leavesBlocks⟩ with
          ⟨reparsed, again, equal⟩
        exact ⟨read, changed, after, printed, reparsed, rfl, walked, prints, again, equal⟩
      · rcases renaming_reads_back_iff (@accepted "class" (by decide))
          parsed 1 time going with
          ⟨changed, after, printed, walked, -, prints, readsBack⟩
        refine ⟨read, changed, after, printed, rfl, walked, prints, ?_⟩
        rcases List.any_eq_true.1 named with ⟨leaf, member, isNamed⟩
        rw [Bool.and_eq_true, decide_eq_true_eq, decide_eq_true_eq] at isNamed
        rw [readsBack]
        intro conditions
        have free := conditions.1 leaf member isNamed.1 "class" isNamed.2
        exact absurd free (by decide)

end RenameIdentifier

end Verbatim
