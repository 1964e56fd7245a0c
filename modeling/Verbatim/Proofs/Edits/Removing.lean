import Verbatim.Proofs.Edits.Building
import Verbatim.Proofs.Edits.Settling
import Verbatim.Proofs.Java.Bodies
import Verbatim.Proofs.Java.Spelling
import Verbatim.Proofs.Printing.Laying

/-! Files without annotations as texts. What is printed after annotations were removed is read again
without them, as long as no two of the tokens that are left run into one. -/

namespace Verbatim

open Node

namespace RemoveAnnotations

variable {edit : RemoveAnnotations}

theorem onlyAnnotations_removes (edit : RemoveAnnotations) : Java.OnlyAnnotations edit.removes := by
  intro node removed
  rw [removes, Bool.and_eq_true] at removed
  exact of_decide_eq_true removed.1

theorem removes_bare (node : Node) : edit.removes node.bare = edit.removes node := by
  rw [removes, removes, is_bare, childrenOfKind_bare, List.head?_map]
  cases (node.childrenOfKind .qualifiedName).head? <;> simp

theorem map_bare_stripAll (nodes : List Node) : (stripAll nodes).map bare = nodes.map bare := by
  cases nodes with
  | nil => rfl
  | cons first rest => rw [stripAll, List.map_cons, List.map_cons, stripLeading, bare_withLeading]

mutual

theorem bare_cleared : ∀ node : Node, (cleared edit node).bare = (node.without edit.removes).bare
  | ⟨head, children⟩ => by
      rw [cleared, without, bare_mk, bare_mk]
      split
      · rw [map_bare_stripAll, map_bare_clearedAll children]
      · rw [map_bare_clearedAll children]

theorem map_bare_clearedAll : ∀ nodes : List Node,
    (clearedAll edit nodes).map bare = (withoutAll edit.removes nodes).map bare
  | [] => rfl
  | node :: rest => by
      rw [clearedAll, withoutAll]
      split
      · exact map_bare_clearedAll rest
      · rw [List.map_cons, List.map_cons, bare_cleared node, map_bare_clearedAll rest]

end

theorem explicit_cleared {node : Node} (stays : edit.removes node = false)
    (explicit : node.Everywhere Explicit) (regular : node.Everywhere Regular) :
    (cleared edit node).Everywhere Explicit := by
  refine everywhere_cleared (fun part leading explicit => ⟨rfl, explicit.spelled⟩) stays
    fun part member _ => ?_
  have here := explicit part member
  have leafOrBranch := (regular part member).leafOrBranch
  rcases part with ⟨head, children⟩
  rw [cleared]
  refine ⟨here.formatted, fun isToken _ => ?_⟩
  rcases leafOrBranch with ⟨-, text, -⟩ | ⟨notToken, -⟩
  · exact text
  · exact absurd (notToken.symm.trans isToken) Bool.false_ne_true

theorem textOrChildren_cleared {node : Node} (stays : edit.removes node = false)
    (regular : node.Everywhere Regular) : (cleared edit node).Everywhere TextOrChildren := by
  refine everywhere_cleared (fun part leading apart => apart) stays fun part member _ => ?_
  have apart := (regular part member).textOrChildren
  rcases part with ⟨head, children⟩
  rw [cleared]
  intro text
  rw [show children = [] from apart text]
  split <;> rfl

end RemoveAnnotations

namespace Java

theorem exists_reads_without {gone : Node → Bool} (only : OnlyAnnotations gone)
    (blind : ∀ node, gone node.bare = gone node) {text : String} {tree : Node}
    (parsed : parse text = .ok tree) :
    ∃ left root, left.Sublist (lexemes text) ∧ (∀ token ∈ left, token.Plain) ∧
      Reads takeLexeme Rule.body (.rule .compilationUnit) left (some ([root], [])) ∧
      root.bare = (tree.without gone).bare := by
  rcases reads_of_parse parsed with ⟨root, reads, bare⟩
  have isFile : gone root = false := by
    rcases reads.of_rule.of_branch with ⟨inner, -, same⟩
    rw [(List.cons.inj same).1]
    exact only.grown (by decide) inner
  rcases compilationUnit_thins only reads with ⟨taken, left, all, sublist, thins⟩
  rw [List.append_nil] at all
  subst all
  have leftReads := (thins [] trivial).1
  rw [List.append_nil, Node.withoutAll_singleton isFile] at leftReads
  refine ⟨left, root.without gone, sublist, fun token member =>
    plain_of_parse parsed token (sublist.subset member), leftReads, ?_⟩
  rw [Node.bare_without blind, Node.bare_without blind, bare]

theorem parse_without_iff {gone : Node → Bool} (only : OnlyAnnotations gone)
    (blind : ∀ node, gone node.bare = gone node) {text : String} {tree : Node}
    (parsed : parse text = .ok tree) (printed : String) :
    (∃ reparsed, parse printed = .ok reparsed ∧ reparsed.bare = (tree.without gone).bare) ↔
      tokenTexts? printed = some ((tree.without gone).tokens.map Prod.snd) := by
  rcases exists_reads_without only blind parsed with ⟨left, root, -, plain, reads, same⟩
  constructor
  · rintro ⟨reparsed, accepted, bare⟩
    rw [tokenTexts?_of_parse accepted, ← Node.tokens_bare reparsed, bare, Node.tokens_bare]
  · intro texts
    have taken : left.map (·.text) = (tree.without gone).tokens.map Prod.snd := by
      rcases reads.yields rfl with ⟨taken, all, yields⟩
      rw [List.append_nil] at all
      rw [all, ← yields.tokens, List.flatMap_singleton, ← Node.tokens_bare, same, Node.tokens_bare]
    rw [← taken] at texts
    rcases parse_of_tokenTexts reads plain texts with ⟨reparsed, accepted, bare⟩
    exact ⟨reparsed, accepted, bare.trans same⟩

end Java

namespace RemoveAnnotations

section

variable {text : String} {read : Node} (parsed : Java.parse text = .ok read) (first : Nat)

include parsed

theorem removes_number_eq_false (edit : RemoveAnnotations) :
    edit.removes (read.number first).1 = false := by
  apply removes_of_kind
  rw [← kind_content, content_number, kind_content, Java.kind_of_parse parsed]
  decide

theorem regular_number_of_parse : (read.number first).1.Everywhere Regular := by
  rw [← everywhere_regular_bare_iff, ← bare_withoutIds, withoutIds_number, bare_withoutIds,
    everywhere_regular_bare_iff]
  exact (Java.parse_readFrom parsed).regular

theorem explicit_number_of_parse : (read.number first).1.Everywhere Explicit := by
  have keeps (head : NodeHead) : ({ head with id := .unnumbered } : NodeHead).kind = head.kind ∧
      head.text.isSome = head.text.isSome ∧ head.leading = head.leading := ⟨rfl, rfl, rfl⟩
  refine (everywhere_explicit_mapHeads keeps _).1 ?_
  rw [show mapHeads _ _ = _ from withoutIds_number read first]
  exact (everywhere_explicit_mapHeads keeps _).2 (Java.explicit_of_parse parsed)

theorem explicit_cleared_of_parse (edit : RemoveAnnotations) :
    (cleared edit (read.number first).1).Everywhere Explicit :=
  explicit_cleared (removes_number_eq_false parsed first edit)
    (explicit_number_of_parse parsed first)
    (regular_number_of_parse parsed first)

/-- What a walk leaves of a file is printed as the file without annotations, and has the content
of it when all its formatting is made explicit. -/
theorem prints_of_parse (edit : RemoveAnnotations) {limits : WalkLimits}
    (time : limits.expired = false)
    {session : Session} (going : session.cancelled = false) :
    ∃ changed after resolved,
      walk edit.visitor limits (read.number first).1 session = (.ok changed, after) ∧
      (changed.getD (read.number first).1).print =
        .ok (cleared edit (read.number first).1).written ∧
      (changed.getD (read.number first).1).resolveFormatting = .ok resolved ∧
      resolved.content = (cleared edit (read.number first).1).hoist.content := by
  have isFile := Node.isFile_of_parse parsed first
  rcases walks_of_distinct time isFile.distinct isFile.names isFile.kind going with
    ⟨changed, after, walked, -, left, -⟩
  have reachable : Reachable (read.number first).1 := .number first (.java parsed)
  have faithful : (changed.getD (read.number first).1).Everywhere Faithful := by
    cases changed with
    | none => exact reachable.everywhere_faithful fun _ absent => absent.elim
    | some new =>
        have reached := (builds edit).reachable reachable (congrArg Prod.fst walked)
        exact reached.everywhere_faithful fun _ absent => absent.elim
  have same : (changed.getD (read.number first).1).content =
      (cleared edit (read.number first).1).content := by
    rw [← content_withoutOrigins, left, content_withoutOrigins]
  rcases Node.prints_of_content faithful (explicit_cleared_of_parse parsed first edit) same with
    ⟨printed, resolved, resolves, content⟩
  exact ⟨changed, after, resolved, walked, printed, resolves, content⟩

end

theorem bare_cleared_number (edit : RemoveAnnotations) (read : Node) (first : Nat) :
    (cleared edit (read.number first).1).bare = (read.without edit.removes).bare := by
  rw [bare_cleared, Node.bare_without removes_bare, Node.bare_without removes_bare,
    ← bare_withoutIds, withoutIds_number, bare_withoutIds]

/-- Removing annotations from a file always gives a text, and that text is a file whose tokens
are those of the file without the tokens of the removed annotations if, and only if, it falls
into their texts: what stands in front of an annotation and what stands behind it may run into
one. -/
theorem removing_keeps_tokens_iff (edit : RemoveAnnotations) {text : String} {read : Node}
    (parsed : Java.parse text = .ok read) (first : Nat) {limits : WalkLimits}
    (time : limits.expired = false) {session : Session} (going : session.cancelled = false) :
    ∃ changed after printed,
      walk edit.visitor limits (read.number first).1 session = (.ok changed, after) ∧
      (changed.getD (read.number first).1).print = .ok printed ∧
      ((∃ reparsed, Java.parse printed = .ok reparsed ∧
          reparsed.tokens = (read.without edit.removes).tokens) ↔
        Java.tokenTexts? printed = some ((read.without edit.removes).tokens.map Prod.snd)) := by
  rcases prints_of_parse parsed first edit time going with ⟨changed, after, -, walked, printed, -⟩
  refine ⟨changed, after, _, walked, printed, ?_, fun texts => ?_⟩
  · rintro ⟨reparsed, accepted, tokens⟩
    rw [Java.tokenTexts?_of_parse accepted, tokens]
  · rcases (Java.parse_without_iff (onlyAnnotations_removes edit) removes_bare parsed _).2
      texts with
      ⟨reparsed, accepted, bare⟩
    exact ⟨reparsed, accepted, by rw [← Node.tokens_bare, bare, Node.tokens_bare]⟩

/-- Between two words an annotation must not be removed with nothing left in its place; in front
of a declaration it may. -/
theorem removing_keeps_tokens_iff_of_modifiers :
    (∃ read changed after printed, Java.parse "@A final class X\x7b\x7d" = .ok read ∧
      walk (visitor ⟨"A"⟩) .none (read.number 1).1 (.start 100 false) = (.ok changed, after) ∧
      (changed.getD (read.number 1).1).print = .ok printed ∧
      ∃ reparsed, Java.parse printed = .ok reparsed ∧
        reparsed.tokens = (read.without (removes ⟨"A"⟩)).tokens) ∧
    ∃ read changed after printed, Java.parse "public@A()final class X\x7b\x7d" = .ok read ∧
      walk (visitor ⟨"A"⟩) .none (read.number 1).1 (.start 100 false) = (.ok changed, after) ∧
      (changed.getD (read.number 1).1).print = .ok printed ∧
      ¬∃ reparsed, Java.parse printed = .ok reparsed ∧
        reparsed.tokens = (read.without (removes ⟨"A"⟩)).tokens := by
  have time : WalkLimits.none.expired = false := rfl
  have going : (Session.start 100 false).cancelled = false := rfl
  have outcome (text : String) (kept : Bool)
      (evaluated : (Java.parse text).toOption.map (fun read => decide
        (Java.tokenTexts? (cleared ⟨"A"⟩ (read.number 1).1).written =
          some ((read.without (removes ⟨"A"⟩)).tokens.map Prod.snd))) = some kept) :
      ∃ read changed after printed, Java.parse text = .ok read ∧
        walk (visitor ⟨"A"⟩) .none (read.number 1).1 (.start 100 false) = (.ok changed, after) ∧
        (changed.getD (read.number 1).1).print = .ok printed ∧
        ((∃ reparsed, Java.parse printed = .ok reparsed ∧
          reparsed.tokens = (read.without (removes ⟨"A"⟩)).tokens) ↔ kept = true) := by
    cases parsed : Java.parse text with
    | error error =>
        rw [parsed] at evaluated
        cases evaluated
    | ok read =>
        rw [parsed] at evaluated
        rcases removing_keeps_tokens_iff ⟨"A"⟩ parsed 1 time going with
          ⟨changed, after, printed, walked, prints, keeps⟩
        rcases prints_of_parse parsed 1 ⟨"A"⟩ time going with ⟨_, _, _, again, written, -⟩
        cases walked.symm.trans again
        cases prints.symm.trans written
        refine ⟨read, changed, after, _, rfl, walked, prints, keeps.trans ?_⟩
        rw [← Option.some.inj evaluated, decide_eq_true_iff]
  rcases outcome "@A final class X\x7b\x7d" true (by decide +kernel) with
    ⟨read, changed, after, printed, parsed, walked, prints, keeps⟩
  rcases outcome "public@A()final class X\x7b\x7d" false (by decide +kernel) with
    ⟨other, otherChanged, otherAfter, otherPrinted, otherParsed, otherWalked, otherPrints, loses⟩
  exact ⟨⟨read, changed, after, printed, parsed, walked, prints, keeps.2 rfl⟩, other, otherChanged,
    otherAfter, otherPrinted, otherParsed, otherWalked, otherPrints, by simpa using loses⟩

/-- A file without some of its annotations is read back as the tree that was printed, with all
its formatting explicit and moved up, if, and only if, the leaves of that tree are the tokens of
the printed text: no two tokens run into one, and no formatting is left inside of a declaration
that has formatting in front of it already. -/
theorem removing_reads_back_iff (edit : RemoveAnnotations) {text : String} {read : Node}
    (parsed : Java.parse text = .ok read) (first : Nat) {limits : WalkLimits}
    (time : limits.expired = false) {session : Session} (going : session.cancelled = false) :
    ∃ changed after printed resolved,
      walk edit.visitor limits (read.number first).1 session = (.ok changed, after) ∧
      (changed.getD (read.number first).1).print = .ok printed ∧
      (changed.getD (read.number first).1).resolveFormatting = .ok resolved ∧
      ((∃ reparsed, Java.parse printed = .ok reparsed ∧ reparsed.contentEq resolved = true) ↔
        List.Forall₂ Java.IsLeafOf (Java.lexemes printed) resolved.leaves) := by
  rcases prints_of_parse parsed first edit time going with
    ⟨changed, after, resolved, walked, printed, resolves, content⟩
  have leaves : resolved.leaves = (cleared edit (read.number first).1).leaves := by
    rw [← Node.leaves_content, content, Node.leaves_content, Node.leaves_hoist]
  refine ⟨changed, after, _, resolved, walked, printed, resolves, ?_, fun areLeaves => ?_⟩
  · rintro ⟨reparsed, accepted, equal⟩
    rw [← Node.leaves_content, ← Node.contentEq_iff_content.1 equal, Node.leaves_content]
    exact Java.leaves_of_parse accepted
  · rw [leaves] at areLeaves
    have bare := bare_cleared_number edit read first
    have apart := textOrChildren_cleared (removes_number_eq_false parsed first edit)
      (regular_number_of_parse parsed first)
    have formatted := (explicit_cleared_of_parse parsed first edit).mono
      fun _ explicit => explicit.formatted
    have texts : Java.tokenTexts? (cleared edit (read.number first).1).written =
        some ((read.without edit.removes).tokens.map Prod.snd) := by
      refine Java.tokenTexts?_eq_some_iff.2 ⟨(Java.map_of_isLeafOf areLeaves).2.2.1, ?_⟩
      rw [← (Java.map_of_isLeafOf areLeaves).2.1, Node.leaves,
        Node.filterMap_text_leavesBehind apart, ← Node.tokens_bare, bare, Node.tokens_bare]
    rcases (Java.parse_without_iff (onlyAnnotations_removes edit) removes_bare parsed _).2
      texts with
      ⟨reparsed, accepted, reparsedBare⟩
    refine ⟨reparsed, accepted, Node.contentEq_iff_content.2 ?_⟩
    rw [Java.content_of_parse accepted (reparsedBare.trans bare.symm) formatted areLeaves, content]

/-- A comment behind an annotation that starts an indented declaration is not moved to the
indentation. -/
theorem removing_reads_back_iff_of_comment :
    ∃ read changed after printed resolved,
      Java.parse "class X \x7b @A /*c*/ int y; \x7d" = .ok read ∧
      walk (visitor ⟨"A"⟩) .none (read.number 1).1 (.start 100 false) = (.ok changed, after) ∧
      (changed.getD (read.number 1).1).print = .ok printed ∧
      (changed.getD (read.number 1).1).resolveFormatting = .ok resolved ∧
      ¬∃ reparsed, Java.parse printed = .ok reparsed ∧ reparsed.contentEq resolved = true := by
  have time : WalkLimits.none.expired = false := rfl
  have going : (Session.start 100 false).cancelled = false := rfl
  have evaluated : ((Java.parse "class X \x7b @A /*c*/ int y; \x7d").toOption.map fun read =>
      (cleared ⟨"A"⟩ (read.number 1).1).leaves.map (·.fronts.length)) =
      some [0, 1, 1, 2, 1, 0, 1, 0] := by decide +kernel
  cases parsed : Java.parse "class X \x7b @A /*c*/ int y; \x7d" with
  | error error =>
      rw [parsed] at evaluated
      cases evaluated
  | ok read =>
      rw [parsed] at evaluated
      rcases removing_reads_back_iff ⟨"A"⟩ parsed 1 time going with
        ⟨changed, after, printed, resolved, walked, prints, resolves, readsBack⟩
      rcases prints_of_parse parsed 1 ⟨"A"⟩ time going with
        ⟨_, _, _, again, -, resolvesAgain, content⟩
      cases walked.symm.trans again
      cases resolves.symm.trans resolvesAgain
      refine ⟨read, changed, after, printed, resolved, rfl, walked, prints, resolves, ?_⟩
      rw [readsBack]
      intro areLeaves
      have single := (Java.map_of_isLeafOf areLeaves).2.2.2
      rw [← Node.leaves_content, content, Node.leaves_content, Node.leaves_hoist] at single
      have two : 2 ∈ (cleared ⟨"A"⟩ (read.number 1).1).leaves.map (·.fronts.length) := by
        rw [show List.map _ _ = _ from Option.some.inj evaluated]
        decide
      rcases List.mem_map.1 two with ⟨leaf, member, length⟩
      exact absurd (single leaf member) (by rw [length]; decide)

end RemoveAnnotations

end Verbatim
