import Verbatim.Proofs.Edits.Removing
import Verbatim.Proofs.Java.Recutting
import Verbatim.Proofs.Traversal.Relating

/-! Files with other blank lines as texts. Where white space is exchanged for other white space
a text falls into the same tokens, with the same comments in front of them; so the edited tree
is printed as a text that is read as that very tree. -/

namespace Verbatim

open Node

/-! ## Texts with other line breaks -/

namespace Java

/-- A token in front of which line breaks were exchanged. -/
theorem IsLeafOf.rebroken {token : Lexeme} {leaf other : Leaf} (isLeaf : IsLeafOf token leaf)
    (rebroken : leaf.Rebroken other)
    (space : ∀ c ∈ token.leading.whitespace.toList, Trivia.isSpace c = true) :
    ∃ new : Lexeme, IsLeafOf new other ∧ new.shape = token.shape ∧
      Respaced token.leading new.leading := by
  rcases isLeaf with ⟨fronts, text, wanted, accepted⟩
  have frontsAlike := rebroken.fronts
  rw [fronts, List.filter_cons, List.filter_nil] at frontsAlike
  have accepts (new : Lexeme) (same : new.shape = token.shape) :
      ∃ wanted : Wanted, wanted.accepts new = some other.kind :=
    ⟨wanted, by rw [accepts_of_shape same wanted, accepted, rebroken.kind]⟩
  cases empty : token.leading.isEmpty with
  | true =>
      simp only [empty, Bool.not_true, Bool.false_eq_true, if_false, List.forall₂_nil_left_iff]
        at frontsAlike
      refine ⟨token, ⟨?_, rebroken.text.trans text, accepts token rfl⟩, rfl, rfl, .inr rfl, space⟩
      rw [frontsAlike, List.filter_cons, empty]
      rfl
  | false =>
      simp only [empty, Bool.not_false, if_true] at frontsAlike
      generalize frontsEqual : other.fronts = fronts at frontsAlike
      cases frontsAlike with
      | @cons _ new _ rest here nothing =>
          cases nothing
          refine ⟨{ token with leading := new }, ⟨?_, rebroken.text.trans text, accepts _ rfl⟩, rfl,
            here.comments, ?_, fun c member => ?_⟩
          · rw [frontsEqual, List.filter_cons, here.isEmpty, empty]
            rfl
          · by_cases nothing : token.leading.whitespace = ""
            · exact .inr ((here.there.2 nothing).trans nothing.symm)
            · exact .inl ⟨nothing, fun gone => nothing (here.there.1 gone)⟩
          · rcases here.spaces c member with rfl | old
            · rfl
            · exact space c old

/-- Line breaks may be exchanged wherever white space stands and stays: the text of a tree that
differs from a file in them only is read as that tree. -/
theorem parse_written_of_rebroken {text : String} {read tree other : Node}
    (parsed : parse text = .ok read) (same : tree.content = read.content)
    (alike : tree.Alike RebrokenHead other) :
    ∃ reparsed, parse other.written = .ok reparsed ∧ reparsed.content = other.content ∧
      other.hoist.content = other.content ∧ other.Everywhere Explicit := by
  have readLeaves := leaves_of_parse parsed
  have single := (map_of_isLeafOf readLeaves).2.2.2
  have leaves : tree.leaves = read.leaves := by
    rw [← leaves_content, same, leaves_content]
  have bare : other.bare = read.bare := by
    rw [bare_rebroken alike, ← bare_content, same, bare_content]
  have formatted : tree.Everywhere Formatted :=
    everywhere_formatted_of_content same (formatted_of_parse parsed)
  have lifted : tree.Everywhere Lifted :=
    everywhere_lifted_of_content same (lifted_of_parse parsed)
  have otherFormatted := everywhere_formatted_rebroken alike formatted
  have otherRegular : other.Everywhere Regular := by
    rw [← everywhere_regular_bare_iff, bare, everywhere_regular_bare_iff]
    exact (parse_readFrom parsed).regular
  have hoisted := content_hoist_rebroken alike formatted lifted (leaves ▸ single)
  have cut := lexemes_cutInto text
  have real := (map_of_isLeafOf readLeaves).2.2.1
  have rebroken : ∃ others, List.Forall₂ IsLeafOf others other.leaves ∧
      List.Forall₂ (fun token other => other.shape = token.shape ∧
        Respaced token.leading other.leading) (lexemes text) others := by
    have leafwise := leaves_rebroken alike
    have space := cut.isSpace_leading
    rw [leaves] at leafwise
    clear real cut
    generalize lexemes text = tokens at readLeaves space
    generalize read.leaves = olds at readLeaves leafwise
    generalize other.leaves = news at leafwise
    induction leafwise generalizing tokens with
    | nil =>
        cases readLeaves
        exact ⟨[], .nil, .nil⟩
    | cons here _ induction =>
        cases readLeaves with
        | cons isLeaf later =>
            rw [List.forall_mem_cons] at space
            rcases isLeaf.rebroken here space.1 with ⟨new, isNew, shape, respaced⟩
            rcases induction _ space.2 later with ⟨others, areNew, alike⟩
            exact ⟨new :: others, .cons isNew areNew, .cons ⟨shape, respaced⟩ alike⟩
  rcases rebroken with ⟨others, areLeaves, respaced⟩
  rcases reads_of_parse parsed with ⟨root, reads, rootBare⟩
  rcases parse_written (cut.respaced real respaced).1 reads (plain_of_parse parsed)
    (rootBare.symm.trans bare.symm) otherFormatted areLeaves with ⟨reparsed, accepted, content⟩
  exact ⟨reparsed, accepted, content.trans hoisted, hoisted,
    fun part member => ⟨otherFormatted part member, (otherRegular part member).spelled⟩⟩

end Java

namespace BlankLines

/-! ## What an adjustment leaves alone -/

theorem rebroken_withBlankLines {count : Nat} (room : count + 1 < UInt64.size) {node : Node}
    {leading : Trivia} (isLeading : node.leading = some leading) (broken : leading.newlines ≠ 0) :
    RebrokenHead node.toNodeHead (withBlankLines count node).toNodeHead := by
  refine ⟨rfl, ?_⟩
  rw [withBlankLines, withLeading, leadingOrEmpty, isLeading, Option.getD_some,
    lineBreaks_of_lt room]
  refine .some ⟨rfl, ?_, fun c member => ?_⟩
  · refine iff_of_false (fun empty => ?_) fun empty => broken ?_
    · rw [Trivia.withWhitespace, ← String.toList_eq_nil_iff, String.toList_ofList,
        List.replicate_succ] at empty
      cases empty
    · rw [Trivia.newlines, empty]
      rfl
  · rw [Trivia.withWhitespace, String.toList_ofList, List.mem_append] at member
    rcases member with added | kept
    · exact .inl (List.eq_of_mem_replicate added)
    · exact .inr (Text.lastLine_subset _ kept)

theorem alike_applyWanted {bounds : Option Bounds}
    (room : ∀ limits, bounds = some limits → limits.Are IsSmall IsSmall) (node : Node) :
    node.Alike RebrokenHead (applyWanted (wantedBlankLines bounds node) node) := by
  cases wanted : wantedBlankLines bounds node with
  | none => exact .refl RebrokenHead.refl node
  | some count =>
      rcases wantedBlankLines_eq_some_iff.1 wanted with
        ⟨limits, leading, isBounds, isLeading, broken, rfl, -⟩
      have counted := (room limits isBounds).hasRoom leading
      exact alike_iff.2 ⟨rebroken_withBlankLines counted isLeading broken,
        List.forall₂_same.2 fun child _ => .refl RebrokenHead.refl child⟩

theorem alike_wantedAll {limits : Limits} (room : limits.Are IsSmall IsSmall) (previous : Node)
    (nodes : List Node) :
    List.Forall₂ (Alike RebrokenHead) nodes
      (List.zipWith applyWanted (wantedAll limits previous nodes) nodes) := by
  induction nodes generalizing previous with
  | nil => exact .nil
  | cons node rest induction =>
      exact .cons (alike_applyWanted (room previous node _) node) (induction node)

theorem composes_alike : Walk.Composes (Alike RebrokenHead) where
  refl := .refl RebrokenHead.refl
  trans here next := .trans (fun first second => first.trans second) here next
  withChildren {node _} children := alike_iff.2 ⟨.withoutOrigin node.toNodeHead, children⟩

theorem relates_keep (node : Node) : Walk.Relates (Alike RebrokenHead) node .keep :=
  ⟨node, rfl, composes_alike.refl node⟩

theorem adjust_relates {limits : Limits} (room : limits.Are IsSmall IsSmall) (node : Node)
    (trail : Trail) :
    Ensures (fun _ => True) (adjust limits node trail)
      fun visit => Walk.Relates (Alike RebrokenHead) node visit.transform := by
  rw [adjust]
  cases children : node.children with
  | nil => exact .pure (relates_keep node)
  | cons first rest =>
      simp only
      split
      · exact .throw
      · split
        · exact .pure (relates_keep node)
        · refine .pure ⟨_, rfl, composes_alike.withChildren ?_⟩
          rw [children]
          exact .cons (composes_alike.refl first) (alike_wantedAll room first rest)

theorem hooksRelate {style : BlankLines} (room : style.HasRoom) :
    Walk.HooksRelate style.visitor (Alike RebrokenHead) where
  visit node trail := by
    show Ensures (fun _ => True) (style.visit node trail) _
    rw [visit]
    cases node.kind with
    | sourceFile => exact adjust_relates (LimitsAre.topLevel room isSmall_zero) node trail
    | block =>
        exact (Ensures.anything _).bindHook fun trail _ =>
          .iteHook (adjust_relates (LimitsAre.memberBounds room isSmall_zero) node _)
            (.pure (relates_keep node))
    | _ => exact .pure (relates_keep node)
  leave node _ := .pure (relates_keep node)

/-! ## Printing and reading again -/

/-- What blank lines are made of a file is, but for the formatting in front of its nodes, the
tree that was read: the same nodes in the same places, with the same numbers, kinds and texts.
If no limit is the greatest word it is printed as a text that is read as the very tree that was
printed, however the walk was limited and whatever it left undone, as long as it gave a tree. It
gives one for all styles whose limits fit into a text. -/
theorem clamped_reads_back (style : BlankLines) {text : String} {read : Node}
    (parsed : Java.parse text = .ok read) (first : Nat) (limits : WalkLimits) (session : Session) :
    (style.Fits text → limits.expired = false → session.cancelled = false →
      ∃ changed, (walk style.visitor limits (read.number first).1 session).1 = .ok changed) ∧
    ∀ changed, (walk style.visitor limits (read.number first).1 session).1 = .ok changed →
      (changed.getD (read.number first).1).mapHeads
          (fun head => { head with leading := none, origin := none }) =
        (read.number first).1.mapHeads (fun head => { head with leading := none, origin := none }) ∧
      (style.HasRoom → ∃ printed resolved reparsed,
        (changed.getD (read.number first).1).print = .ok printed ∧
        (changed.getD (read.number first).1).resolveFormatting = .ok resolved ∧
        Java.parse printed = .ok reparsed ∧
        reparsed.contentEq (changed.getD (read.number first).1) = true ∧
        reparsed.contentEq resolved = true) := by
  constructor
  · intro fits time going
    have short := short_of_readFrom (Java.parse_readFrom parsed) first
    rw [walk_of_decidesOn (decides fits) time short going]
    exact ⟨_, rfl⟩
  · intro changed walked
    refine ⟨?_, fun room => ?_⟩
    · rw [style.become_of_walked walked]
      exact style.unlaid_become _ none _
    have alike := walk_relates composes_alike (hooksRelate room) walked
    rcases Java.parse_written_of_rebroken parsed (content_number read first) alike with
      ⟨reparsed, accepted, content, hoisted, explicit⟩
    have reachable : Reachable (read.number first).1 := .number first (.java parsed)
    have faithful : (changed.getD (read.number first).1).Everywhere Faithful := by
      cases changed with
      | none => exact reachable.everywhere_faithful fun _ absent => absent.elim
      | some new =>
          have reached := style.builds.reachable reachable walked
          exact reached.everywhere_faithful fun _ absent => absent.elim
    rcases prints_of_content faithful explicit rfl with ⟨printed, resolved, resolves, same⟩
    exact ⟨_, resolved, reparsed, printed, resolves, accepted, contentEq_iff_content.2 content,
      contentEq_iff_content.2 (content.trans (same.trans hoisted).symm)⟩

/-- Two blank lines of three are left behind a package and between fields; margins and comments are
where they were. -/
theorem clamped_reads_back_of_fields :
    ∃ read changed printed resolved reparsed,
      Java.parse "package a;\n\n\n\n// c\nclass A\x7b\n  int x;\n\n \n\n  int y; \x7d" = .ok read ∧
      (walk standard.visitor .none (read.number 1).1 (.start 100 false)).1 = .ok (some changed) ∧
      changed.written = "package a;\n\n\n// c\nclass A\x7b\n  int x;\n\n\n  int y; \x7d" ∧
      changed.print = .ok printed ∧ changed.resolveFormatting = .ok resolved ∧
      Java.parse printed = .ok reparsed ∧ reparsed.contentEq changed = true ∧
      reparsed.contentEq resolved = true ∧
      changed.mapHeads (fun head => { head with leading := none, origin := none }) =
        (read.number 1).1.mapHeads (fun head => { head with leading := none, origin := none }) := by
  have evaluated : ((Java.parse
      "package a;\n\n\n\n// c\nclass A\x7b\n  int x;\n\n \n\n  int y; \x7d").toOption.map
        fun read =>
      (walk standard.visitor .none (read.number 1).1 (.start 100 false)).1.toOption.map
        fun changed => changed.map written) =
      some (some (some "package a;\n\n\n// c\nclass A\x7b\n  int x;\n\n\n  int y; \x7d")) := by
    decide +kernel
  cases parsed : Java.parse
      "package a;\n\n\n\n// c\nclass A\x7b\n  int x;\n\n \n\n  int y; \x7d" with
  | error error =>
      rw [parsed] at evaluated
      cases evaluated
  | ok read =>
      rcases clamped_reads_back standard parsed 1 .none (.start 100 false) with ⟨gives, reads⟩
      rcases gives (fits_standard _) rfl rfl with ⟨changed, walked⟩
      rw [parsed] at evaluated
      have outcome :
          (walk standard.visitor .none (read.number 1).1 (.start 100 false)).1.toOption.map
          (fun changed => changed.map written) = _ := Option.some.inj evaluated
      rw [walked] at outcome
      cases changed with
      | none => cases outcome
      | some changed =>
          have written : changed.written = _ := Option.some.inj (Option.some.inj outcome)
          rcases reads _ walked with ⟨rest, readsBack⟩
          rcases readsBack hasRoom_standard with
            ⟨printed, resolved, reparsed, prints, resolves, accepted, same, alike⟩
          exact ⟨read, changed, printed, resolved, reparsed, rfl, walked, written, prints, resolves,
            accepted, same, alike, rest⟩

end BlankLines

end Verbatim
