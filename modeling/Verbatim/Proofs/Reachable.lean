import Verbatim.Proofs.Languages
import Verbatim.Proofs.Printing.Resolving
import Verbatim.Proofs.Printing.Splices
import Verbatim.Proofs.Traversal.Walking

/-! The trees that a program can come by: it reads them, makes nodes, changes them, takes them apart
and puts them together again, and sends visitors through them. Whatever it does, a node that says
where it was read is still printed as its parts would be. -/

namespace Verbatim

open Node

/-- Some message on the board stands for the node. -/
def Board.Carries (stands : Message → Node → Prop) (board : Board) (node : Node) : Prop :=
  ∃ level ∈ board.levels, ∃ entry ∈ level, stands entry.2 node

/-- The node can be built from the given ones and from files that are read. Visitors build their
answers from the nodes they look at, from those above, from what they were given and from what they
find in messages; and what they leave in messages for later they build from these too. -/
inductive Built : (Node → Prop) → Node → Prop
  | given {given : Node → Prop} {node : Node} : given node → Built given node
  | java {given : Node → Prop} {text : String} {tree : Node} :
      Java.parse text = .ok tree → Built given tree
  | plainText {given : Node → Prop} {text : String} {tree : Node} :
      Language.readPlainText text = .ok tree → Built given tree
  | token {given : Node → Prop} (kind : Kind) (text : String) : Built given (Node.token kind text)
  | branch {given : Node → Prop} (kind : Kind) {children : List Node} :
      (∀ child ∈ children, Built given child) → Built given (Node.branch kind children)
  | child {given : Node → Prop} {node child : Node} :
      Built given node → child ∈ node.children → Built given child
  | withText {given : Node → Prop} {node : Node} (text : String) :
      Built given node → Built given (node.withText text)
  | withLeading {given : Node → Prop} {node : Node} (leading : Trivia) :
      Built given node → Built given (node.withLeading leading)
  | withDefaultLeading {given : Node → Prop} {node : Node} :
      Built given node → Built given node.withDefaultLeading
  | withTrailing {given : Node → Prop} {node : Node} (trailing : Trivia) :
      Built given node → Built given (node.withTrailing trailing)
  | withChildren {given : Node → Prop} {node : Node} {children : List Node} :
      Built given node → (∀ child ∈ children, Built given child) →
      Built given (node.withChildren children)
  | withMarkers {given : Node → Prop} {node : Node} (markers : List Marker) :
      Built given node → Built given (node.withMarkers markers)
  | withMarker {given : Node → Prop} {node : Node} (marker : Marker) :
      Built given node → Built given (node.withMarker marker)
  | withId {given : Node → Prop} {node : Node} (id : NodeId) :
      Built given node → Built given (node.withId id)
  | number {given : Node → Prop} {node : Node} (next : Nat) :
      Built given node → Built given (node.number next).1
  | hoist {given : Node → Prop} {node : Node} : Built given node → Built given node.hoist
  | resolveFormatting {given : Node → Prop} {node resolved : Node} :
      Built given node → node.resolveFormatting = .ok resolved → Built given resolved
  | walk {given : Node → Prop} {visitor : Visitor} {limits : WalkLimits} {session : Session}
      {root node : Node} (stands : Message → Node → Prop) :
      Built given root →
      (∀ (seen : Node) (above : List Node) (before after : Session) (visit : Visit),
        (visitor.visit seen ⟨seen, above⟩).run.run before = (.ok visit, after) →
        ∀ new, new ∈ visit.transform.nodes seen ∨ after.board.Carries stands new →
          Built (fun other =>
            given other ∨ other ∈ seen :: above ∨ before.board.Carries stands other) new) →
      (∀ (seen : Node) (above : List Node) (before after : Session) (transform : Transform),
        (visitor.leave seen ⟨seen, above⟩).run.run before = (.ok transform, after) →
        ∀ new, new ∈ transform.nodes seen ∨ after.board.Carries stands new →
          Built (fun other =>
            given other ∨ other ∈ seen :: above ∨ before.board.Carries stands other) new) →
      (Verbatim.walk visitor limits root session).1 = .ok (some node) → Built given node

/-- The node can be built from nothing but files that are read. -/
def Reachable (node : Node) : Prop := Built (fun _ => False) node

/-! ## Messages -/

namespace Board.Carries

variable {stands : Message → Node → Prop} {board : Board} {node : Node}

theorem of_enter (carries : board.enter.Carries stands node) : board.Carries stands node := by
  rcases carries with ⟨level, member, entry, inLevel, standsFor⟩
  rcases List.mem_cons.1 member with rfl | member
  · cases inLevel
  · exact ⟨level, member, entry, inLevel, standsFor⟩

theorem of_leave (carries : board.leave.Carries stands node) : board.Carries stands node := by
  rcases carries with ⟨level, member, entry, inLevel, standsFor⟩
  exact ⟨level, List.mem_of_mem_tail member, entry, inLevel, standsFor⟩

theorem not_empty : ¬ Board.empty.Carries stands node := by
  rintro ⟨level, member, entry, inLevel, -⟩
  rw [List.mem_singleton.1 member] at inLevel
  cases inLevel

end Board.Carries

/-! ## Everything that is built -/

theorem Node.ReadFrom.everywhere_faithful {text : String} {tree : Node}
    (read : tree.ReadFrom text) : tree.Everywhere Faithful :=
  read.lies.everywhere_faithful (read.regular.mono fun _ regular => regular.spelled)

/-- What is said of nodes with origins only holds of everything that is built if it holds of
everything that is read. -/
theorem Built.everywhere {property : Node → Prop} (about : AboutOrigins property)
    (blind : ∀ node : Node, node.withoutIds.Everywhere property ↔ node.Everywhere property)
    (java : ∀ {text tree}, Java.parse text = .ok tree → tree.Everywhere property)
    (plainText : ∀ {text tree}, Language.readPlainText text = .ok tree → tree.Everywhere property)
    {given : Node → Prop} {node : Node} (built : Built given node)
    (holds : ∀ other, given other → other.Everywhere property) : node.Everywhere property := by
  have renumbered {node other : Node} (same : node.withoutIds = other.withoutIds)
      (inside : other.Everywhere property) : node.Everywhere property := by
    rwa [← blind, same, blind]
  induction built with
  | given member => exact holds _ member
  | java parsed => exact java parsed
  | plainText read => exact plainText read
  | token kind text => exact about.everywhere rfl (by simp [Node.token])
  | branch kind _ children =>
      exact about.everywhere rfl fun child member => children child member holds
  | child _ member node => exact (node holds).child member
  | withText text _ node =>
      exact about.everywhere rfl fun child => (node holds).child
  | withLeading leading _ node =>
      exact about.everywhere rfl fun child => (node holds).child
  | withDefaultLeading _ node =>
      exact about.everywhere rfl fun child => (node holds).child
  | withTrailing trailing _ node =>
      exact about.everywhere rfl fun child => (node holds).child
  | withChildren _ _ _ children =>
      exact about.everywhere rfl fun child member => children child member holds
  | withMarkers markers _ node =>
      exact about.everywhere rfl fun child => (node holds).child
  | withMarker marker _ node =>
      exact about.everywhere rfl fun child => (node holds).child
  | withId id _ node => exact renumbered (withoutIds_withId _ id) (node holds)
  | number next _ node => exact renumbered (withoutIds_number _ next) (node holds)
  | hoist _ node => exact about.hoist (node holds)
  | resolveFormatting _ resolved node => exact about.resolveFormatting (node holds) resolved
  | @walk given visitor limits session root node stands _ _ _ walked root visit leave =>
      let kept (session : Session) : Prop :=
        ∀ carried, session.board.Carries stands carried → carried.Everywhere property
      have passes : Walk.Passes kept fun node : Node => node.Everywhere property := by
        constructor
        · exact fun holds member => holds.child member
        · exact fun _ children => about.everywhere rfl children
        · exact fun session keeps carried inside => keeps carried inside.of_enter
        · exact fun session keeps carried inside => keeps carried inside.of_leave
      -- the property holds of all that a hook can build from
      have material : ∀ {seen : Node} {above : List Node} {before : Session},
          (∀ other ∈ seen :: above, other.Everywhere property) → kept before →
          ∀ other, given other ∨ other ∈ seen :: above ∨ before.board.Carries stands other →
            other.Everywhere property := by
        intro seen above before around keeps other either
        rcases either with inGiven | inSight | inMessage
        · exact holds other inGiven
        · exact around other inSight
        · exact keeps other inMessage
      have hooks : Walk.HooksKeep visitor kept fun node : Node => node.Everywhere property := by
        constructor
        · intro seen above around before answer after keeps answered
          have built := fun new either => visit seen above before after answer answered new either
            (material around keeps)
          exact ⟨fun carried inside => built carried (.inr inside),
            fun new member => built new (.inl member)⟩
        · intro seen above around before answer after keeps answered
          have built := fun new either => leave seen above before after answer answered new either
            (material around keeps)
          exact ⟨fun carried inside => built carried (.inr inside),
            fun new member => built new (.inl member)⟩
      refine walk_ensures passes hooks ?_ (root holds) walked
      exact fun carried inside => absurd inside Board.Carries.not_empty

theorem Built.everywhere_faithful {given : Node → Prop} {node : Node} (built : Built given node)
    (faithful : ∀ other, given other → other.Everywhere Faithful) : node.Everywhere Faithful :=
  built.everywhere aboutOrigins_faithful everywhere_faithful_withoutIds
    (fun parsed => (Java.parse_readFrom parsed).everywhere_faithful)
    (fun read => (Language.readPlainText_readFrom read).everywhere_faithful) faithful

/-- Any node that a program can come by may be put in the place of another one once its formatting
is decided and its tokens have text: a node that was read has formatting. -/
theorem Reachable.everywhere_ready {node : Node} (reachable : Reachable node)
    (decided : node.Everywhere fun below => below.leading.isSome ∨ below.origin.isSome)
    (spelled : node.Everywhere Spelled) : node.Everywhere Ready := by
  intro below member
  have faithful := reachable.everywhere_faithful (fun _ absent => absent.elim) below member
  exact faithful.ready (decided below member) (spelled below member)

/-- So nodes that a program can come by may be spliced in, wherever each of them has its
formatting or its origin. -/
theorem Reachable.splice_prints {text : String} {tree : Node} (readFrom : tree.ReadFrom text)
    {replacements : List Replacement} (apart : Replacement.Apart replacements)
    (inside : ∀ replacement ∈ replacements, replacement.path ≠ [] ∧
      (tree.descendant? replacement.path).isSome)
    (given : ∀ replacement ∈ replacements, ∀ new ∈ replacement.nodes, Reachable new ∧
      (new.Everywhere fun below => below.leading.isSome ∨ below.origin.isSome) ∧
        new.Everywhere Spelled) :
    ∃ sorted ranges out, sorted.Perm replacements ∧ Replacement.Ordered sorted ∧
      sorted.mapM tree.rangeOf? = some ranges ∧ replaceRanges? text 0 ranges = some out ∧
      (tree.splice replacements).print = .ok out := by
  apply readFrom.splice_prints apart inside
  intro replacement member new newMember
  rcases given replacement member new newMember with ⟨reachable, decided, spelled⟩
  exact reachable.everywhere_ready decided spelled

/-- In every tree that a program can come by, a node with an origin is as it was read: everything
below it has an origin too, and the text at its origin, which the printer gives out, is the text of
its parts, which the printer gives out as well when all origins are forgotten. -/
theorem reachable_verbatim {node below : Node} (reachable : Reachable node)
    (member : below ∈ node.preorder) {origin : Origin} (read : below.origin = some origin) :
    (∀ inner ∈ below.preorder, inner.origin.isSome) ∧ origin.text = below.written ∧
      below.print = .ok origin.text ∧ below.withoutOrigins.print = .ok origin.text :=
  (reachable.everywhere_faithful (fun _ absent => absent.elim) below member).prints read

/-- A class with a line break put in front of it: the class itself is changed, its parts are not. -/
theorem reachable_verbatim_of_moved_class :
    ∃ tree below origin, Java.parse "class A\x7b\x7d" = .ok tree ∧
      Reachable (tree.withLeading (.ofWhitespace "\n")) ∧
      below ∈ (tree.withLeading (.ofWhitespace "\n")).preorder ∧ below.origin = some origin ∧
      (∀ inner ∈ below.preorder, inner.origin.isSome) ∧ origin.text = below.written ∧
      below.print = .ok origin.text ∧ below.withoutOrigins.print = .ok origin.text := by
  have evaluated : ((Java.parse "class A\x7b\x7d").toOption.map fun tree =>
      (tree.withLeading (.ofWhitespace "\n")).preorder.any fun below => below.origin.isSome) =
      some true := by decide +kernel
  cases parsed : Java.parse "class A\x7b\x7d" with
  | error error =>
      rw [parsed] at evaluated
      cases evaluated
  | ok tree =>
      rw [parsed] at evaluated
      have reachable : Reachable (tree.withLeading (.ofWhitespace "\n")) :=
        .withLeading _ (.java parsed)
      rcases List.any_eq_true.1 (Option.some.inj evaluated) with ⟨below, member, hasOrigin⟩
      rcases Option.isSome_iff_exists.1 hasOrigin with ⟨origin, read⟩
      exact ⟨tree, below, origin, rfl, reachable, member, read,
        reachable_verbatim reachable member read⟩

end Verbatim
