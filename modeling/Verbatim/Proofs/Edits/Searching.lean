import Verbatim.Proofs.Edits.Building
import Verbatim.Proofs.Edits.Heads
import Verbatim.Proofs.Java.Noting
import Verbatim.Proofs.Printing.Laying
import Verbatim.Proofs.Printing.Marking

/-! Searching a file. What a search marks is always printed, and the comments that stand for the
markers are read as comments unless one of them stands behind a slash or ends what was open only
because nothing ended it. -/

namespace Verbatim

open Node

namespace FindIdentifier

/-- What the leaf looks like that is searched for. -/
def finds (search : FindIdentifier) (leaf : Leaf) : Bool :=
  leaf.kind = .identifier && leaf.text = some search.spelling

/-- The comment in front of what was found. -/
def note (search : FindIdentifier) : String := Printer.markerComment search.marker

/-- The tree with a marker on every identifier that is searched for. -/
def marked (search : FindIdentifier) : Node → Node := mapHeads fun head =>
  if head.kind = .identifier ∧ head.text = some search.spelling then
    { head with markers := Marker.addTo head.markers search.marker }
  else head

theorem kind_of_finds {search : FindIdentifier} {leaf : Leaf} (found : search.finds leaf = true) :
    leaf.kind = .identifier := by
  rw [finds, Bool.and_eq_true, decide_eq_true_eq] at found
  exact found.1

theorem content_marked (search : FindIdentifier) (node : Node) :
    (search.marked node).content = node.mapHeads (headContent ∘ search.headEdit.head) := by
  rw [content_eq_mapHeads, marked, mapHeads_mapHeads]
  refine congrArg (fun change => node.mapHeads change) (funext fun head => ?_)
  rw [Function.comp, Function.comp, HeadEdit.head, headEdit]
  simp only [Bool.and_eq_true, decide_eq_true_eq]
  by_cases isMarked : search.marker ∈ head.markers
  · simp [isMarked, Marker.addTo]
  · simp only [isMarked, not_false_eq_true, and_true]
    split <;> rfl

/-! ## Texts with comments -/

def annotated (search : FindIdentifier) (head : NodeHead) : NodeHead :=
  annotatedHead (if head.kind = .identifier ∧ head.text = some search.spelling then
    { head with markers := Marker.addTo head.markers search.marker } else head)

theorem annotated_keeps (search : FindIdentifier) (head : NodeHead) :
    (search.annotated head).kind = head.kind ∧ (search.annotated head).trailing = head.trailing ∧
      (search.annotated head).text.isSome = head.text.isSome ∧
      (search.annotated head).leading = head.leading := by
  rw [annotated, annotatedHead]
  split <;> simp

def spelledWith (search : FindIdentifier) (leaf : Leaf) : Leaf :=
  { leaf with text := leaf.text.map ((if search.finds leaf then search.note else "") ++ ·) }

theorem text_annotated {search : FindIdentifier} {head : NodeHead} (none : head.markers = [])
    (fronts : List Trivia) : search.spelledWith ⟨fronts, head.kind, head.text⟩ =
      ⟨fronts, (search.annotated head).kind, (search.annotated head).text⟩ := by
  rw [(search.annotated_keeps head).1, annotated, annotatedHead, spelledWith, finds]
  simp only [Bool.and_eq_true, decide_eq_true_eq]
  split <;>
    simp [none, Marker.addTo, Printer.markerComments, String.join_cons, String.join_nil, note]

end FindIdentifier

namespace Java

theorem charactersOf_noteAll_finds {search : FindIdentifier}
    {tokens : List Lexeme} {leaves : List Leaf}
    (areLeaves : List.Forall₂ IsLeafOf tokens leaves) :
    charactersOf (noteAll search.finds search.note tokens leaves) =
      (String.join ((leaves.map search.spelledWith).map Leaf.written)).toList := by
  induction areLeaves with
  | nil => rfl
  | @cons token leaf tokens leaves isLeaf _ induction =>
      rw [noteAll, List.zipWith_cons_cons, ← noteAll, charactersOf_noted, induction, List.map_cons,
        List.map_cons, String.join_cons, Leaf.written, FindIdentifier.spelledWith,
        isLeaf.join_fronts, isLeaf.text, noteOf]
      cases search.finds leaf <;> simp

end Java

namespace FindIdentifier

section

variable {search : FindIdentifier} {text : String} {read : Node}
    (parsed : Java.parse text = .ok read)

include parsed

theorem written_annotated_of_parse : (read.mapHeads search.annotated).written =
    String.ofList (Java.charactersOf (Java.noteAll search.finds search.note (Java.lexemes text)
      read.leaves)) := by
  have none := Java.everywhere_markers_of_parse parsed
  have regular : (read.mapHeads search.annotated).Everywhere Regular := by
    refine (everywhere_mapHeads (regular_mapHeads fun head => ?_) read).2
      (Java.parse_readFrom parsed).regular
    have keeps := search.annotated_keeps head
    exact ⟨keeps.1, keeps.2.1, keeps.2.2.1⟩
  have leaves : (read.mapHeads search.annotated).leaves = read.leaves.map search.spelledWith :=
    leavesBehind_mapHeads_of_texts (fun head => (search.annotated_keeps head).2.2.2)
      (none.mono fun part nothing fronts => text_annotated nothing fronts) []
  rw [written_eq_join_leaves regular, leaves,
    Java.charactersOf_noteAll_finds (Java.leaves_of_parse parsed), String.ofList_toList]

theorem texts_marked_of_parse :
    (search.marked read).Everywhere fun part => part.text = none → part.markers = [] := by
  refine (Java.everywhere_markers_of_parse parsed).mapHeads fun part none noText => ?_
  rw [toNodeHead_mapHeads] at noText ⊢
  split at noText
  next found => rw [found.2] at noText; cases noText
  next notFound => rw [if_neg notFound]; exact none

end

/-- Searching gives a tree that is always printed, with and without the comments. With them it
is a file with one more comment in front of every name that was found, and nothing else in it
has changed, if and only if no place is disturbed by the comments: a name directly behind a
slash; the opener of a comment that did not end and would end in a comment further on; and, if
the description ends text blocks, the opener of one that did not end. -/
theorem comments_read_back_iff {search : FindIdentifier}
    (noEnd : ∀ text ∈ search.description, ¬ ['*', '/'] <:+: text.toList)
    {text : String} {read : Node}
    (parsed : Java.parse text = .ok read) (first : Nat) {limits : WalkLimits}
    (time : limits.expired = false) {session : Session} (going : session.cancelled = false) :
    ∃ changed after printed,
      walk search.visitor limits (read.number first).1 session = (.ok changed, after) ∧
      (changed.getD (read.number first).1).contentEq (search.marked read) = true ∧
      (changed.getD (read.number first).1).printMarked = .ok printed ∧
      ((∃ reparsed, Java.parse printed = .ok reparsed ∧ reparsed.bare = read.bare ∧
          reparsed.leaves = read.leaves.map fun leaf =>
            leaf.noted search.note (search.finds leaf)) ↔
        ¬Java.Disturbed search.finds search.note read.leaves) := by
  have walked := walk_of_decides search.decides time (read.number first).1 going
  have content :
      ((Look.become search.headEdit.looks ((read.number first).1.height + limits.spareDepth)
      none (read.number first).1).getD (read.number first).1).content =
        (search.marked read).content := by
    rw [search.headEdit.content_become none (Nat.le_add_right _ _), content_marked,
      ← search.headEdit_settles.mapHeads_content, content_number,
      search.headEdit_settles.mapHeads_content]
  generalize Look.become search.headEdit.looks _ none (read.number first).1 =
    changed at walked content
  have reachable : Reachable (changed.getD (read.number first).1) := by
    have start : Reachable (read.number first).1 := .number first (.java parsed)
    cases changed with
    | none => exact start
    | some new => exact search.builds.reachable start (congrArg Prod.fst walked)
  have explicit : (changed.getD (read.number first).1).Everywhere Explicit := by
    refine everywhere_explicit_of_content content
      ((everywhere_explicit_mapHeads (fun head => ?_) read).2 (Java.explicit_of_parse parsed))
    split <;> exact ⟨rfl, rfl, rfl⟩
  have texts : (changed.getD (read.number first).1).Everywhere fun part =>
      part.text = none → part.markers = [] := by
    rw [content_eq_mapHeads, content_eq_mapHeads] at content
    refine everywhere_of_mapHeads_eq (fun part => ?_) content (texts_marked_of_parse parsed)
    rw [toNodeHead_mapHeads, headContent]
  have written : ((changed.getD (read.number first).1).mapHeads annotatedHead).written =
      String.ofList (Java.charactersOf (Java.noteAll search.finds search.note (Java.lexemes text)
        read.leaves)) := by
    have contents (node : Node) : (node.mapHeads annotatedHead).content =
        node.content.mapHeads annotatedHead := by
      rw [content_eq_mapHeads, content_eq_mapHeads, mapHeads_mapHeads, mapHeads_mapHeads]
      rfl
    rw [← written_annotated_of_parse parsed, ← written_content, contents, content, ← contents,
      written_content, marked, mapHeads_mapHeads]
    rfl
  refine ⟨changed, _, _, walked, contentEq_iff_content.2 content,
    printMarked_of_annotated reachable explicit texts, ?_⟩
  rw [written]
  exact Java.parse_noteAll_iff parsed (Java.isNote_markerComment noEnd) fun _ => kind_of_finds

/-- The comment in front of a name is a comment where the class is called so, but not where a slash
stands right in front of it. -/
theorem comments_read_back_iff_of_quotient :
    (∃ read changed after printed reparsed, Java.parse "class A \x7b\x7d" = .ok read ∧
      walk (visitor ⟨"A", some "here"⟩) .none (read.number 1).1 (.start 100 false) =
        (.ok changed, after) ∧
      (changed.getD (read.number 1).1).printMarked = .ok printed ∧
      Java.parse printed = .ok reparsed ∧
      reparsed.bare = read.bare ∧ reparsed.leaves = read.leaves.map fun leaf =>
        leaf.noted (note ⟨"A", some "here"⟩) (finds ⟨"A", some "here"⟩ leaf)) ∧
    ∃ read changed after printed, Java.parse "class A\x7bint x=a/b;\x7d" = .ok read ∧
      walk (visitor ⟨"b", none⟩) .none (read.number 1).1 (.start 100 false) = (.ok changed, after) ∧
      (changed.getD (read.number 1).1).printMarked = .ok printed ∧
      ¬∃ reparsed, Java.parse printed = .ok reparsed ∧ reparsed.bare = read.bare ∧
        reparsed.leaves = read.leaves.map fun leaf =>
          leaf.noted (note ⟨"b", none⟩) (finds ⟨"b", none⟩ leaf) := by
  have time : WalkLimits.none.expired = false := rfl
  have going : (Session.start 100 false).cancelled = false := rfl
  constructor
  · have evaluated : (Java.parse "class A \x7b\x7d").toOption.map leaves =
        some [⟨[], .keyword, some "class"⟩, ⟨[.ofWhitespace " "], .identifier, some "A"⟩,
          ⟨[.ofWhitespace " "], .punctuation, some "\x7b"⟩, ⟨[], .punctuation, some "\x7d"⟩,
          ⟨[], .endOfFile, some ""⟩] := by decide +kernel
    cases parsed : Java.parse "class A \x7b\x7d" with
    | error error =>
        rw [parsed] at evaluated
        cases evaluated
    | ok read =>
        rw [parsed] at evaluated
        have leaves := Option.some.inj evaluated
        have noEnd : ∀ text ∈ (⟨"A", some "here"⟩ : FindIdentifier).description,
            ¬ ['*', '/'] <:+: text.toList := by
          intro text here
          cases here
          decide
        rcases comments_read_back_iff noEnd parsed 1 time going with
          ⟨changed, after, printed, walked, -, prints, readsBack⟩
        have undisturbed : ¬Java.Disturbed (finds ⟨"A", some "here"⟩) (note ⟨"A", some "here"⟩)
            read.leaves := by
          rw [leaves]
          simp [Java.Disturbed, Java.Disturbs]
        rcases readsBack.2 undisturbed with ⟨reparsed, again, same, noted⟩
        exact ⟨read, changed, after, printed, reparsed, rfl, walked, prints, again, same, noted⟩
  · have evaluated : (Java.parse "class A\x7bint x=a/b;\x7d").toOption.map leaves =
        some [⟨[], .keyword, some "class"⟩, ⟨[.ofWhitespace " "], .identifier, some "A"⟩,
          ⟨[], .punctuation, some "\x7b"⟩, ⟨[], .keyword, some "int"⟩,
          ⟨[.ofWhitespace " "], .identifier, some "x"⟩, ⟨[], .punctuation, some "="⟩,
          ⟨[], .identifier, some "a"⟩, ⟨[], .punctuation, some "/"⟩, ⟨[], .identifier, some "b"⟩,
          ⟨[], .punctuation, some ";"⟩, ⟨[], .punctuation, some "\x7d"⟩,
          ⟨[], .endOfFile, some ""⟩] := by
      decide +kernel
    cases parsed : Java.parse "class A\x7bint x=a/b;\x7d" with
    | error error =>
        rw [parsed] at evaluated
        cases evaluated
    | ok read =>
        rw [parsed] at evaluated
        have leaves := Option.some.inj evaluated
        have noEnd : ∀ text ∈ (⟨"b", none⟩ : FindIdentifier).description,
            ¬ ['*', '/'] <:+: text.toList := by
          intro text absent
          cases absent
        rcases comments_read_back_iff noEnd parsed 1 time going with
          ⟨changed, after, printed, walked, -, prints, readsBack⟩
        refine ⟨read, changed, after, printed, rfl, walked, prints, ?_⟩
        rw [readsBack, not_not, leaves]
        simp [Java.Disturbed, Java.Disturbs, finds]

end FindIdentifier

end Verbatim
