import Verbatim.Proofs.Edits.InPlace
import Verbatim.Proofs.Java.Recutting
import Verbatim.Proofs.Java.Words
import Verbatim.Proofs.Tree.Respacing

/-! What renaming changes: the words of a file that are spelled so, wherever they stand, and nothing
else. -/

namespace Verbatim

open Node

namespace RenameIdentifier

/-- How a token is spelled afterwards: a reserved word is never a name. -/
def respelled (edit : RenameIdentifier) (token : Java.Lexeme) : String :=
  if token.tokenClass = .word ∧ token.text = edit.old ∧
  Java.isReserved edit.old = false then edit.new
  else token.text

variable {edit : RenameIdentifier}

theorem forgets (edit : RenameIdentifier) (head : NodeHead) :
    edit.headEdit.change head = { edit.headEdit.change head with origin := none } := rfl

theorem keeps (edit : RenameIdentifier) (head : NodeHead) :
    (edit.headEdit.head head).id = head.id ∧ (edit.headEdit.head head).kind = head.kind ∧
      (edit.headEdit.head head).text.isSome = head.text.isSome ∧
      (edit.headEdit.head head).leading = head.leading ∧
      (edit.headEdit.head head).trailing = head.trailing := by
  rw [HeadEdit.head]
  split
  next concerned =>
    rw [headEdit, HeadEdit.ofText, Bool.and_eq_true, decide_eq_true_eq,
      decide_eq_true_eq] at concerned
    exact ⟨rfl, rfl, by rw [concerned.2]; rfl, rfl, rfl⟩
  next => exact ⟨rfl, rfl, rfl, rfl, rfl⟩

theorem touches_iff_mem_tokens (node : Node) :
    edit.headEdit.touches node = true ↔ (.identifier, edit.old) ∈ node.tokens := by
  simp only [HeadEdit.touches, List.any_eq_true, headEdit, HeadEdit.ofText, Bool.and_eq_true,
    decide_eq_true_eq, tokens, List.mem_filterMap, Option.map_eq_some_iff, Prod.mk.injEq]
  refine exists_congr fun part => and_congr_right fun _ => ?_
  constructor
  · rintro ⟨kind, text⟩
    exact ⟨edit.old, text, kind, rfl⟩
  · rintro ⟨_, text, kind, rfl⟩
    exact ⟨kind, text⟩

def spelledAnew (edit : RenameIdentifier) (leaf : Leaf) : Leaf :=
  if leaf.kind = .identifier ∧ leaf.text = some edit.old then { leaf with text := some edit.new }
  else leaf

section

variable {text : String} {read : Node} (parsed : Java.parse text = .ok read)

theorem written_spelledAnew {token : Java.Lexeme} {leaf : Leaf}
    (isLeaf : Java.IsNamedLeafOf token leaf)
    (other : edit.old ≠ Java.permits) :
    (edit.spelledAnew leaf).written = token.leading.text ++ edit.respelled token := by
  have concerned : leaf.kind = .identifier ∧ leaf.text = some edit.old ↔
      token.tokenClass = .word ∧ token.text = edit.old ∧ Java.isReserved edit.old = false := by
    rw [isLeaf.text, Option.some.injEq]
    constructor
    · rintro ⟨isIdentifier, same⟩
      have free := isLeaf.free isIdentifier
      exact ⟨free.1, same, same ▸ free.2⟩
    · rintro ⟨isWord, same, free⟩
      exact ⟨isLeaf.named ⟨isWord, same ▸ free⟩ (same ▸ other), same⟩
  rw [spelledAnew, respelled, if_congr concerned rfl rfl]
  split
  next => rw [Leaf.written, isLeaf.join_fronts, Option.getD_some]
  next => rw [Leaf.written, isLeaf.join_fronts, isLeaf.text, Option.getD_some]

include parsed

theorem written_of_parse (other : edit.old ≠ Java.permits) :
    (read.mapHeads edit.headEdit.head).written = String.join
      ((Java.lexemes text).map fun token => token.leading.text ++ edit.respelled token) := by
  have regular : (read.mapHeads edit.headEdit.head).Everywhere Regular := by
    refine (everywhere_mapHeads (regular_mapHeads fun head => ?_) read).2
      (Java.parse_readFrom parsed).regular
    have keeps := edit.keeps head
    exact ⟨keeps.2.1, keeps.2.2.2.2, keeps.2.2.1⟩
  have leaves : (read.mapHeads edit.headEdit.head).leaves = read.leaves.map edit.spelledAnew := by
    refine leavesBehind_mapHeads_of_texts (fun head => (edit.keeps head).2.2.2.1)
      (fun part _ fronts => ?_) []
    rw [spelledAnew, HeadEdit.head, headEdit, HeadEdit.ofText]
    simp only [Bool.and_eq_true, decide_eq_true_eq]
    split <;> rfl
  rw [written_eq_join_leaves regular, leaves, List.map_map]
  congr 1
  have areLeaves := Java.namedLeaves_of_parse parsed
  rw [← List.forall₂_eq_eq_eq, List.forall₂_map_left_iff, List.forall₂_map_right_iff]
  exact areLeaves.flip.imp fun leaf token isLeaf => written_spelledAnew isLeaf other

theorem touches_eq_false_of_parse (first : Nat) (absent : Java.isReserved edit.old = true ∨
    ∀ token ∈ Java.lexemes text, token.tokenClass = .word → token.text ≠ edit.old) :
    edit.headEdit.touches (read.number first).1 = false := by
  rw [← Bool.not_eq_true, touches_iff_mem_tokens, ← tokens_bare, ← bare_content, content_number,
    bare_content, tokens_bare, ← filterMap_leavesBehind ((Java.parse_readFrom parsed).regular.mono
      fun _ => Regular.textOrChildren) [], List.mem_filterMap]
  rintro ⟨leaf, member, token⟩
  rcases Option.map_eq_some_iff.1 token with ⟨name, named, equal⟩
  rcases Prod.mk.inj equal with ⟨isIdentifier, rfl⟩
  rcases Java.exists_isLeafOf (Java.leaves_of_parse parsed) member with ⟨token, inside, isLeaf⟩
  have free := isLeaf.free isIdentifier
  have same : token.text = edit.old := Option.some.inj (isLeaf.text.symm.trans named)
  rcases absent with reserved | absent
  · exact absurd (reserved.symm.trans (same ▸ free.2)) (by decide)
  · exact absent token inside free.1 same

/-- Of a file in which a name is exchanged for another one all words that are spelled so have
the new spelling, and every other byte is as it was; only the word that introduces permitted
subtypes is not always a name. All nodes stand where they stood, and those in which nothing is
renamed are the very nodes they were. -/
theorem renaming_respells (edit : RenameIdentifier) (other : edit.old ≠ "permits") (first : Nat)
    {limits : WalkLimits} (time : limits.expired = false) {session : Session}
    (going : session.cancelled = false) :
    ∃ changed after,
      walk edit.visitor limits (read.number first).1 session = (.ok changed, after) ∧
      (changed.getD (read.number first).1).print = .ok (String.join
        ((Java.lexemes text).map fun token => token.leading.text ++ edit.respelled token)) ∧
      ((Java.isReserved edit.old = true ∨
          ∀ token ∈ Java.lexemes text, token.tokenClass = .word → token.text ≠ edit.old) →
        changed = none) ∧
      (∀ path, ((changed.getD (read.number first).1).descendant? path).map
          (fun part => (part.id, part.kind)) =
        ((read.number first).1.descendant? path).map fun part => (part.id, part.kind)) ∧
      ∀ path part, (read.number first).1.descendant? path = some part →
        (∀ token ∈ part.preorder, token.kind = .identifier → token.text ≠ some edit.old) →
        (changed.getD (read.number first).1).descendant? path = some part := by
  refine ⟨_, _, HeadEdit.walk_edits edit.decides edit.forgets time _ going,
    ?_, fun absent => ?_, ?_, ?_⟩
  · rw [HeadEdit.getD_edited, HeadEdit.print_edited edit.decides edit.builds
      (HeadEdit.ofText_settles ..) edit.forgets (fun head => ?_) parsed first,
      written_of_parse parsed other]
    have keeps := edit.keeps head
    exact ⟨keeps.2.1, keeps.2.2.1, keeps.2.2.2.1⟩
  · rw [touches_eq_false_of_parse parsed first absent, if_neg Bool.false_ne_true]
  · intro path
    rw [HeadEdit.getD_edited, HeadEdit.descendant?_edited, Option.map_map]
    refine congrArg (fun view => Option.map view _) (funext fun part => ?_)
    have head := @HeadEdit.toNodeHead_edited edit.headEdit part
    have keeps := edit.keeps part.toNodeHead
    refine Prod.ext ((congrArg (·.id) head).trans keeps.1)
      ((congrArg (·.kind) head).trans keeps.2.1)
  · intro path part found spared
    rw [HeadEdit.getD_edited, HeadEdit.descendant?_edited, found, Option.map_some,
      HeadEdit.edited_of_not_touches]
    rw [← Bool.not_eq_true, HeadEdit.touches, List.any_eq_true]
    rintro ⟨token, inside, concerned⟩
    rw [headEdit, HeadEdit.ofText, Bool.and_eq_true, decide_eq_true_eq,
      decide_eq_true_eq] at concerned
    exact spared token inside concerned.1 concerned.2

end

/-- A class gets its new name, and a comment that mentions the old one does not. -/
theorem renaming_respells_of_class :
    ∃ read changed after, Java.parse "class A \x7b A /*A*/ x; \x7d" = .ok read ∧ "A" ≠ "permits" ∧
      walk (visitor ⟨"A", "B"⟩) .none (read.number 1).1 (.start 100 false) = (.ok changed, after) ∧
      (changed.getD (read.number 1).1).print = .ok "class B \x7b B /*A*/ x; \x7d" := by
  have evaluated : (Java.parse "class A \x7b A /*A*/ x; \x7d").toOption.isSome = true ∧
      String.join ((Java.lexemes "class A \x7b A /*A*/ x; \x7d").map fun token =>
        token.leading.text ++ respelled ⟨"A", "B"⟩ token) = "class B \x7b B /*A*/ x; \x7d" := by
    decide +kernel
  cases parsed : Java.parse "class A \x7b A /*A*/ x; \x7d" with
  | error error =>
      rw [parsed] at evaluated
      cases evaluated.1
  | ok read =>
      have other : (⟨"A", "B"⟩ : RenameIdentifier).old ≠ "permits" := by decide
      rcases renaming_respells parsed ⟨"A", "B"⟩ other 1
        (show WalkLimits.none.expired = false from rfl)
        (show (Session.start 100 false).cancelled = false from rfl) with
        ⟨changed, after, walked, prints, -⟩
      exact ⟨read, changed, after, rfl, other, walked, evaluated.2 ▸ prints⟩

end RenameIdentifier

end Verbatim
