import Verbatim.Proofs.Edits.Remaining
import Verbatim.Proofs.Edits.Removing
import Verbatim.Proofs.Printing.Splices

/-! The bytes that are cut out of a text when annotations are removed from it: those of the
annotations, and the white space in front of what moves up to the start of a declaration. -/

namespace Verbatim

open Node
open Text (StandsAt)

namespace RemoveAnnotations

variable (edit : RemoveAnnotations)

/-- The bytes of a node that was read. -/
def spanOf (node : Node) : Option Span := node.origin.map (·.span)

/-- The bytes of the white space in front of a node, up to the first comment. -/
def spaceOf (node : Node) : Option Span := node.origin.map fun origin =>
  ⟨origin.span.start, origin.span.start + node.leadingOrEmpty.whitespace.utf8ByteSize,
    Nat.le_add_right ..⟩

mutual

def cuts : Node → List Span
  | ⟨head, children⟩ =>
    cutsOfAll (head.kind.isDeclaration && edit.losesFirst ⟨head, children⟩) children

/-- What is cut out of siblings; `leads` tells that the first one that stays moves up. -/
def cutsOfAll (leads : Bool) : List Node → List Span
  | [] => []
  | node :: rest =>
    if edit.removes node then (spanOf node).toList ++ cutsOfAll leads rest
    else (if leads then (spaceOf node).toList else []) ++ cuts node ++ cutsOfAll false rest

end

/-! ## The text that is left -/

theorem text_withWhitespace (trivia : Trivia) :
    trivia.text = trivia.whitespace ++ (trivia.withWhitespace "").text := by
  simp [Trivia.text, Trivia.pieces, Trivia.withWhitespace, String.join_cons]

section

variable {edit} {source : String}

theorem rewritten_space {start stop inner : Nat} {node : Node}
    {leading : Trivia} {text behind : String}
    {ranges : List (Span × String)} (lies : node.Sealed source start stop)
    (formatted : node.leading = some leading)
    (front : StandsAt source start inner (leading.text ++ text))
    (rest : Rewritten source inner stop ranges behind) :
    Rewritten source start stop ((spaceOf node).toList.map (·, "") ++ ranges)
      ((leading.withWhitespace "").text ++ text ++ behind) := by
  rcases lies.exists_origin with ⟨origin, read, -, rfl, -⟩
  rw [text_withWhitespace, String.append_assoc] at front
  rcases front.split with ⟨space, behindSpace⟩
  let span : Span := ⟨origin.span.start, origin.span.start + leading.whitespace.utf8ByteSize,
    Nat.le_add_right ..⟩
  have spaces : spaceOf node = some span := by
    rw [spaceOf, read, Option.map_some]
    simp only [leadingOrEmpty, formatted, Option.getD_some, span]
  have cut : Rewritten source origin.span.start stop ((span, "") :: ranges)
      ("" ++ "" ++ ((leading.withWhitespace "").text ++ text ++ behind)) :=
    .replaced space.empty_at_start (Rewritten.prepend behindSpace rest)
  rw [String.empty_append, String.empty_append] at cut
  rw [spaces]
  exact cut

mutual

theorem rewritten_cleared : ∀ {start stop : Nat} (leads : Bool) (node : Node),
    node.Sealed source start stop →
    Rewritten source start stop
      (((if leads then (spaceOf node).toList else []) ++ edit.cuts node).map (·, ""))
      (if leads then stripLeading (cleared edit node) else cleared edit node).written
  | start, stop, leads, ⟨head, children⟩, lies => by
      have whole := lies
      rcases lies with ⟨leading, span, position, inner, behind, leadingEqual, -, -, -, front,
        childrenLie, back⟩
      have inside := (rewritten_clearedAll
        (head.kind.isDeclaration && edit.losesFirst ⟨head, children⟩) children childrenLie).append
        (.kept back)
      rw [List.append_nil] at inside
      rw [List.map_append, cuts]
      cases leads with
      | false =>
          have kept := Rewritten.prepend front inside
          rw [← String.append_assoc] at kept
          show Rewritten _ _ _ _ (cleared edit _).written
          rw [cleared, written, leadingEqual]
          exact kept
      | true =>
          have moved := rewritten_space whole leadingEqual front inside
          rw [← String.append_assoc] at moved
          show Rewritten _ _ _ _ (stripLeading (cleared edit _)).written
          rw [cleared, stripLeading, leadingOrEmpty, leadingEqual]
          exact moved

theorem rewritten_clearedAll : ∀ {start stop : Nat} (leads : Bool) (nodes : List Node),
    SealedInTurn source start stop nodes →
    Rewritten source start stop ((edit.cutsOfAll leads nodes).map (·, ""))
      (writtenOfAll (if leads then stripAll (clearedAll edit nodes) else clearedAll edit nodes))
  | start, stop, leads, [], lie => by
      rw [cutsOfAll, clearedAll, stripAll, ite_self]
      exact .kept lie
  | start, stop, leads, node :: rest, lie => by
      rcases lie with ⟨middle, here, there⟩
      rw [cutsOfAll, clearedAll]
      split
      · rcases here.rewritten_whole [] with ⟨range, ⟨_, origin, found, read, rfl⟩, gone⟩
        cases found
        rw [spanOf, read]
        exact gone.append (rewritten_clearedAll leads rest there)
      · have both := (rewritten_cleared leads node here).append
          (rewritten_clearedAll false rest there)
        rw [← List.map_append] at both
        cases leads <;> exact both

end

end

/-! ## The bytes that are cut out -/

section

variable {edit} {span : Span}

theorem mem_cutsOfAll {leads : Bool} {nodes : List Node} : span ∈ edit.cutsOfAll leads nodes ↔
    (∃ gone ∈ nodes, edit.removes gone = true ∧ spanOf gone = some span) ∨
      (leads = true ∧ ∃ part, nodes.find? (fun node => !edit.removes node) = some part ∧
        spaceOf part = some span) ∨
      ∃ child ∈ nodes, edit.removes child = false ∧ span ∈ edit.cuts child := by
  induction nodes generalizing leads with
  | nil => simp [cutsOfAll]
  | cons node rest induction =>
      rw [cutsOfAll, List.exists_mem_cons_iff, List.exists_mem_cons_iff, List.find?_cons]
      cases removed : edit.removes node with
      | true => simp [induction, or_assoc]
      | false => cases leads <;> simp [induction, or_left_comm]

theorem leads_iff {declaration part : Node} : edit.Leads declaration part ↔
    (declaration.kind.isDeclaration && edit.losesFirst declaration) = true ∧
      declaration.children.find? (fun node => !edit.removes node) = some part := by
  rw [Bool.and_eq_true, and_assoc, losesFirst, List.find?_eq_some_iff_append]
  constructor
  · rintro ⟨isDeclaration, ⟨front, rest, children, nonempty, removed⟩, stays⟩
    rcases List.exists_cons_of_ne_nil nonempty with ⟨first, others, rfl⟩
    refine ⟨isDeclaration, ?_, by rw [stays]; rfl, _, rest, children, fun node member => ?_⟩
    · rw [children, List.cons_append, List.head?_cons, Option.any_some,
        removed first List.mem_cons_self]
    · rw [removed node member]; rfl
  · rintro ⟨isDeclaration, losesFirst, stays, front, rest, children, removed⟩
    rw [Bool.not_eq_true'] at stays
    refine ⟨isDeclaration,
      ⟨front, rest, children, ?_, fun node member => by simpa using removed node member⟩, stays⟩
    rintro rfl
    rw [children, List.nil_append, List.head?_cons, Option.any_some, stays] at losesFirst
    cases losesFirst

theorem mem_cuts {node : Node} : span ∈ edit.cuts node ↔ ∃ parent ∈ edit.remaining node,
    (∃ gone ∈ parent.children, edit.removes gone = true ∧ spanOf gone = some span) ∨
      ∃ part, edit.Leads parent part ∧ spaceOf part = some span := by
  induction node using Node.induction with
  | step node induction =>
      have here : span ∈ edit.cuts node ↔
          (∃ gone ∈ node.children, edit.removes gone = true ∧ spanOf gone = some span) ∨
            (∃ part, edit.Leads node part ∧ spaceOf part = some span) ∨
            ∃ child ∈ node.children, edit.removes child = false ∧ span ∈ edit.cuts child := by
        simp only [leads_iff, and_assoc, exists_and_left]
        cases node
        rw [cuts, mem_cutsOfAll]
      have below : (∃ child ∈ node.children, edit.removes child = false ∧ span ∈ edit.cuts child) ↔
          ∃ child ∈ node.children, edit.removes child = false ∧ ∃ parent ∈ edit.remaining child,
            (∃ gone ∈ parent.children, edit.removes gone = true ∧ spanOf gone = some span) ∨
              ∃ part, edit.Leads parent part ∧ spaceOf part = some span :=
        exists_congr fun child => and_congr_right fun isChild =>
          and_congr_right fun _ => induction child isChild
      rw [here, below, ← or_assoc]
      constructor
      · rintro (cut | ⟨child, isChild, stays, parent, remains, cut⟩)
        · exact ⟨node, mem_remaining.2 (.inl rfl), cut⟩
        · exact ⟨parent, mem_remaining.2 (.inr ⟨child, isChild, stays, remains⟩), cut⟩
      · rintro ⟨parent, remains, cut⟩
        rcases mem_remaining.1 remains with rfl | ⟨child, isChild, stays, below⟩
        · exact .inl cut
        · exact .inr ⟨child, isChild, stays, parent, below, cut⟩

end

/-! ## Annotations in files -/

def AnnotationIsPlain (node : Node) : Prop :=
  node.kind = .annotationUse → ∀ child ∈ node.children,
    child.Everywhere fun part => part.kind ≠ .annotationUse ∧ part.kind.isDeclaration = false

theorem annotationIsPlain_mapHeads_iff {change : NodeHead → NodeHead}
    (keeps : ∀ head, (change head).kind = head.kind) (node : Node) :
    AnnotationIsPlain (node.mapHeads change) ↔ AnnotationIsPlain node := by
  have kind (other : Node) : (other.mapHeads change).kind = other.kind := by
    rw [toNodeHead_mapHeads, keeps]
  rw [AnnotationIsPlain, AnnotationIsPlain, kind, children_mapHeads, List.forall_mem_map]
  exact imp_congr_right fun _ => forall_congr' fun child => imp_congr_right fun _ =>
    everywhere_mapHeads (fun part => by rw [kind]) child

def inAnnotations (rule : Java.Rule) : Bool :=
  rule = .qualifiedName || rule = .parenGroup || rule = .group || rule = .groupItem

def isInAnnotation (kind : Kind) : Bool := kind = .qualifiedName || kind = .group

theorem annotationIsPlain_of_parse {text : String} {tree : Node}
    (parsed : Java.parse text = .ok tree) :
    tree.Everywhere AnnotationIsPlain := by
  have closed (name : Java.Rule) (inside : inAnnotations name = true) :
      (Java.Rule.body name).Branches (fun other _ => isInAnnotation other) inAnnotations =
        true := by
    revert name
    decide +kernel
  have only (name : Java.Rule) : (Java.Rule.body name).Branches
      (fun other part => other ≠ .annotationUse ||
        part.Branches (fun other _ => isInAnnotation other) inAnnotations)
      (fun _ => true) = true := by
    revert name
    decide
  have plain (kind : Kind) (inside : kind.isToken = true ∨ isInAnnotation kind = true) :
      kind ≠ .annotationUse ∧ kind.isDeclaration = false := by
    constructor
    · rintro rfl
      exact absurd inside (by decide)
    · cases kind <;> first | rfl | exact absurd inside (by decide)
  exact (Java.inside_of_parse parsed closed only).mono fun node inside annotates child isChild =>
    (inside annotates child isChild).mono fun part => plain part.kind

/-! ## Files without annotations -/

section

variable {edit} {tree : Node} {span : Span}

/-- An annotation that is removed has a parent that remains, and so has what moves up. -/
theorem mem_cuts_of_plain (stays : edit.removes tree = false)
    (plain : tree.Everywhere AnnotationIsPlain) :
    span ∈ edit.cuts tree ↔
      (∃ part ∈ tree.preorder, edit.removes part = true ∧ spanOf part = some span) ∨
        ∃ part, edit.MovesUp tree part ∧ spaceOf part = some span := by
  -- below an annotation that is removed there is neither an annotation nor a declaration
  have below {parent gone part : Node} (remains : parent ∈ edit.remaining tree)
      (isChild : gone ∈ parent.children) (removed : edit.removes gone = true)
      (inside : part ∈ gone.preorder) : gone.kind = .annotationUse ∧ (part = gone ∨
        part.kind ≠ .annotationUse ∧ part.kind.isDeclaration = false) := by
    have annotates := onlyAnnotations_removes edit gone removed
    refine ⟨annotates, ?_⟩
    have goneInside : gone ∈ tree.preorder := mem_preorder_trans
      (mem_preorder.2 (.inr ⟨gone, isChild, gone.self_mem_preorder⟩))
      (mem_preorder_of_mem_remaining remains)
    rcases mem_preorder.1 inside with same | ⟨child, isInside, deeper⟩
    · exact .inl same
    · exact .inr (plain gone goneInside annotates child isInside part deeper)
  rw [mem_cuts]
  constructor
  · rintro ⟨parent, remains, ⟨gone, isChild, removed, isSpan⟩ | ⟨part, leads, isSpace⟩⟩
    · exact .inl ⟨gone, mem_preorder_trans
        (mem_preorder.2 (.inr ⟨gone, isChild, gone.self_mem_preorder⟩))
        (mem_preorder_of_mem_remaining remains), removed, isSpan⟩
    · exact .inr ⟨part, ⟨parent, mem_preorder_of_mem_remaining remains, leads⟩, isSpace⟩
  · rintro (⟨part, inside, removed, isSpan⟩ | ⟨part, ⟨declaration, inside, leads⟩, isSpace⟩)
    · rcases mem_remaining_or inside with remains | ⟨parent, remains, gone, isChild, isGone, within⟩
      · rw [removes_of_mem_remaining stays remains] at removed
        cases removed
      · rcases (below remains isChild isGone within).2 with rfl | ⟨otherKind, -⟩
        · exact ⟨parent, remains, .inl ⟨part, isChild, isGone, isSpan⟩⟩
        · exact absurd (onlyAnnotations_removes edit part removed) otherKind
    · rcases mem_remaining_or inside with remains | ⟨parent, remains, gone, isChild, isGone, within⟩
      · exact ⟨declaration, remains, .inr ⟨part, leads, isSpace⟩⟩
      · have isDeclaration := leads.isDeclaration
        rcases below remains isChild isGone within with ⟨annotates, rfl | ⟨-, noDeclaration⟩⟩
        · rw [annotates] at isDeclaration
          cases isDeclaration
        · rw [noDeclaration] at isDeclaration
          cases isDeclaration

end

/-- Removing annotations from a file leaves none of them, and cuts these bytes out of the text,
and no others: those of every annotation, and the white space, up to the first comment, in front
of whatever moves up to the start of a declaration because annotations are removed there. All
other nodes remain, in their order, with their identities; each is the very node it was unless
an annotation was removed below it or it moves up. -/
theorem removing_cuts (edit : RemoveAnnotations) {text : String} {read : Node}
    (parsed : Java.parse text = .ok read) (first : Nat) {limits : WalkLimits}
    (time : limits.expired = false) {session : Session} (going : session.cancelled = false) :
    ∃ (changed : Option Node) (after : Session) (ranges : List Span) (printed : String),
      walk edit.visitor limits (read.number first).1 session = (.ok changed, after) ∧
      edit.Clear (changed.getD (read.number first).1) ∧
      (∀ span, span ∈ ranges ↔
        (∃ part ∈ (read.number first).1.preorder, edit.removes part = true ∧
          spanOf part = some span) ∨
          ∃ part, edit.MovesUp (read.number first).1 part ∧ spaceOf part = some span) ∧
      replaceRanges? text 0 (ranges.map (·, "")) = some printed ∧
      (changed.getD (read.number first).1).print = .ok printed ∧
      List.Forall₂ (edit.Remains (read.number first).1) (edit.remaining (read.number first).1)
        (changed.getD (read.number first).1).preorder := by
  have isFile := Node.isFile_of_parse parsed first
  have stays := removes_number_eq_false parsed first edit
  rcases walk_of_distinct time isFile.distinct stays going with ⟨changed, after, walked, -, turned⟩
  rcases prints_of_parse parsed first edit time going with ⟨_, _, -, again, prints, -⟩
  cases walked.symm.trans again
  have lies : (read.number first).1.Sealed text 0 text.utf8ByteSize := by
    rw [← sealed_withoutIds, withoutIds_number, sealed_withoutIds]
    exact (Java.parse_readFrom parsed).lies
  have plain : (read.number first).1.Everywhere AnnotationIsPlain := by
    refine everywhere_of_mapHeads_eq ?_ (withoutIds_number read first)
      (annotationIsPlain_of_parse parsed)
    exact annotationIsPlain_mapHeads_iff fun _ => rfl
  exact ⟨changed, after, edit.cuts (read.number first).1, _, walked,
    clear_of_turn stays isFile.names turned, fun span => mem_cuts_of_plain stays plain,
    (rewritten_cleared false (read.number first).1 lies).replaceRanges? rfl, prints,
    remains_of_turn (self_mem_preorder _) stays turned⟩

/-- What follows an annotation at the start of a class or of a field moves up. -/
theorem removing_cuts_of_class :
    ∃ (read : Node) (changed : Option Node) (after : Session) (ranges : List Span),
      Java.parse "@A @B final class X\x7b @A int y; \x7d" = .ok read ∧
      walk (visitor ⟨"A"⟩) .none (read.number 1).1 (.start 100 false) = (.ok changed, after) ∧
      replaceRanges? "@A @B final class X\x7b @A int y; \x7d" 0 (ranges.map (·, "")) =
        some "@B final class X\x7b int y; \x7d" ∧
      (changed.getD (read.number 1).1).print = .ok "@B final class X\x7b int y; \x7d" := by
  have evaluated : (Java.parse "@A @B final class X\x7b @A int y; \x7d").toOption.map (fun read =>
      (cleared ⟨"A"⟩ (read.number 1).1).written) = some "@B final class X\x7b int y; \x7d" := by
    decide +kernel
  cases parsed : Java.parse "@A @B final class X\x7b @A int y; \x7d" with
  | error error =>
      rw [parsed] at evaluated
      cases evaluated
  | ok read =>
      rw [parsed] at evaluated
      have time : WalkLimits.none.expired = false := rfl
      have going : (Session.start 100 false).cancelled = false := rfl
      rcases removing_cuts ⟨"A"⟩ parsed 1 time going with
        ⟨changed, after, ranges, printed, walked, -, -, cut, prints, -⟩
      rcases prints_of_parse parsed 1 ⟨"A"⟩ time going with ⟨_, _, _, again, written, -⟩
      cases walked.symm.trans again
      cases prints.symm.trans written
      have isLeft : (cleared ⟨"A"⟩ (read.number 1).1).written =
          "@B final class X\x7b int y; \x7d" := Option.some.inj evaluated
      exact ⟨read, changed, after, ranges, rfl, walked, isLeft ▸ cut, isLeft ▸ prints⟩

end RemoveAnnotations

end Verbatim
