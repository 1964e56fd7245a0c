import Verbatim.Tree.Node

/-! What a tree looks like from outside: what holds of all its nodes, the text its parts spell, its
shape without formatting, and its leaves with the formatting in front of them. -/

namespace Verbatim

theorem Trivia.eq_empty_of_isEmpty {trivia : Trivia} (empty : trivia.isEmpty = true) :
    trivia = .empty := by
  rcases trivia with ⟨whitespace, comments⟩
  simp only [isEmpty, Bool.and_eq_true, String.isEmpty_iff, List.isEmpty_iff] at empty
  rw [empty.1, empty.2, Trivia.empty]

theorem Trivia.text_of_isEmpty {trivia : Trivia} (empty : trivia.isEmpty = true) :
    trivia.text = "" := by
  rw [eq_empty_of_isEmpty empty]
  rfl

@[simp] theorem Trivia.text_empty : Trivia.empty.text = "" := rfl

namespace Node

/-! ## Properties of all nodes -/

theorem mem_preorderOfAll {below : Node} {nodes : List Node} :
    below ∈ preorderOfAll nodes ↔ ∃ node ∈ nodes, below ∈ node.preorder := by
  induction nodes with
  | nil => simp [preorderOfAll]
  | cons first rest induction => simp [preorderOfAll, induction]

theorem mem_preorder {below node : Node} :
    below ∈ node.preorder ↔ below = node ∨ ∃ child ∈ node.children, below ∈ child.preorder := by
  cases node
  simp [preorder, mem_preorderOfAll]

theorem self_mem_preorder (node : Node) : node ∈ node.preorder := mem_preorder.2 (.inl rfl)

theorem mem_preorder_trans {part below node : Node} (inner : part ∈ below.preorder)
    (outer : below ∈ node.preorder) : part ∈ node.preorder := by
  induction node using Node.induction with
  | step node induction =>
      rcases mem_preorder.1 outer with rfl | ⟨child, isChild, inside⟩
      · exact inner
      · exact mem_preorder.2 (.inr ⟨child, isChild, induction child isChild inside⟩)

/-- The property holds of the node and of all nodes below it. -/
def Everywhere (property : Node → Prop) (node : Node) : Prop :=
  ∀ below ∈ node.preorder, property below

theorem everywhere_iff {property : Node → Prop} {node : Node} :
    node.Everywhere property ↔
      property node ∧ ∀ child ∈ node.children, child.Everywhere property := by
  constructor
  · intro holds
    refine ⟨holds node node.self_mem_preorder, ?_⟩
    intro child member below inside
    exact holds below (mem_preorder.2 (.inr ⟨child, member, inside⟩))
  · rintro ⟨here, inside⟩ below member
    rcases mem_preorder.1 member with rfl | ⟨child, childMember, below⟩
    · exact here
    · exact inside child childMember _ below

namespace Everywhere

variable {property other : Node → Prop} {node : Node}

theorem here (holds : node.Everywhere property) : property node := (everywhere_iff.1 holds).1

theorem child (holds : node.Everywhere property) {child : Node} (member : child ∈ node.children) :
    child.Everywhere property :=
  (everywhere_iff.1 holds).2 child member

theorem mono (holds : node.Everywhere property) (implies : ∀ node, property node → other node) :
    node.Everywhere other :=
  fun below member => implies below (holds below member)

theorem below (holds : node.Everywhere property) {below : Node} (member : below ∈ node.preorder) :
    below.Everywhere property :=
  fun _ inner => holds _ (mem_preorder_trans inner member)

end Everywhere

/-! ## The text of the parts -/

mutual

/-- The text of a node put together from its own parts, whether or not it remembers where it was
read. Formatting that is left to a printer counts as empty. -/
def written : Node → String
  | ⟨head, children⟩ =>
    (head.leading.getD .empty).text ++ head.text.getD "" ++ writtenOfAll children ++
      head.trailing.text

def writtenOfAll : List Node → String
  | [] => ""
  | node :: rest => node.written ++ writtenOfAll rest

end

theorem writtenOfAll_append (nodes others : List Node) :
    writtenOfAll (nodes ++ others) = writtenOfAll nodes ++ writtenOfAll others := by
  induction nodes with
  | nil => rw [List.nil_append, writtenOfAll, String.empty_append]
  | cons first rest induction =>
      rw [List.cons_append, writtenOfAll, writtenOfAll, induction, String.append_assoc]

/-! ## Trees with other heads

Origins, identities and formatting are parts of the heads of a tree. A tree without them has the
same nodes, with other heads. -/

mutual

/-- The tree with the same change made to all heads. -/
def mapHeads (change : NodeHead → NodeHead) : Node → Node
  | ⟨head, children⟩ => ⟨change head, mapHeadsOfAll change children⟩

def mapHeadsOfAll (change : NodeHead → NodeHead) : List Node → List Node
  | [] => []
  | node :: rest => node.mapHeads change :: mapHeadsOfAll change rest

end

section

variable {change next : NodeHead → NodeHead}

theorem mapHeadsOfAll_eq_map (nodes : List Node) :
    mapHeadsOfAll change nodes = nodes.map (mapHeads change) := by
  induction nodes with
  | nil => rfl
  | cons first rest induction => rw [mapHeadsOfAll, induction, List.map_cons]

theorem mapHeads_mk (head : NodeHead) (children : List Node) :
    mapHeads change ⟨head, children⟩ = ⟨change head, children.map (mapHeads change)⟩ := by
  rw [mapHeads, mapHeadsOfAll_eq_map]

theorem children_mapHeads (node : Node) :
    (node.mapHeads change).children = node.children.map (mapHeads change) := by
  rcases node with ⟨head, children⟩
  rw [mapHeads_mk]

theorem children_mapHeads_eq_nil_iff (node : Node) :
    (node.mapHeads change).children = [] ↔ node.children = [] := by
  rw [children_mapHeads, List.map_eq_nil_iff]

theorem toNodeHead_mapHeads (node : Node) :
    (node.mapHeads change).toNodeHead = change node.toNodeHead := by
  cases node
  rfl

theorem mapHeads_mapHeads (node : Node) :
    (node.mapHeads change).mapHeads next = node.mapHeads (next ∘ change) := by
  induction node using Node.induction with
  | step node induction =>
      rcases node with ⟨head, children⟩
      rw [mapHeads_mk, mapHeads_mk, mapHeads_mk, List.map_map]
      exact congrArg (Node.mk _) (List.map_congr_left induction)

theorem heads_of_mapHeads_eq {node : Node} (same : node.mapHeads change = node.mapHeads next) :
    node.Everywhere fun part => change part.toNodeHead = next part.toNodeHead := by
  induction node using Node.induction with
  | step node induction =>
      rcases node with ⟨head, children⟩
      rw [mapHeads_mk, mapHeads_mk, Node.mk.injEq] at same
      exact everywhere_iff.2 ⟨same.1, fun child member =>
        induction child member (List.map_inj_left.1 same.2 child member)⟩

theorem written_mapHeads (keeps : ∀ head, (change head).leading = head.leading ∧
    (change head).text = head.text ∧ (change head).trailing = head.trailing) (node : Node) :
    (node.mapHeads change).written = node.written := by
  have all (nodes : List Node)
      (each : ∀ node ∈ nodes, (node.mapHeads change).written = node.written) :
      writtenOfAll (mapHeadsOfAll change nodes) = writtenOfAll nodes := by
    induction nodes with
    | nil => rfl
    | cons first rest induction =>
        rw [mapHeadsOfAll, writtenOfAll, writtenOfAll, each first List.mem_cons_self,
          induction fun node member => each node (List.mem_cons_of_mem _ member)]
  induction node using Node.induction with
  | step node induction =>
      rcases node with ⟨head, children⟩
      rw [mapHeads, written, written, all children induction, (keeps head).1, (keeps head).2.1,
        (keeps head).2.2]

theorem tokensText_mapHeads (keeps : ∀ head, (change head).text = head.text) (node : Node) :
    (node.mapHeads change).tokensText = node.tokensText := by
  have all (nodes : List Node)
      (each : ∀ node ∈ nodes, (node.mapHeads change).tokensText = node.tokensText) :
      tokensTextOfAll (mapHeadsOfAll change nodes) = tokensTextOfAll nodes := by
    induction nodes with
    | nil => rfl
    | cons first rest induction =>
        rw [mapHeadsOfAll, tokensTextOfAll, tokensTextOfAll, each first List.mem_cons_self,
          induction fun node member => each node (List.mem_cons_of_mem _ member)]
  induction node using Node.induction with
  | step node induction =>
      rcases node with ⟨head, children⟩
      rw [mapHeads, tokensText, tokensText, all children induction, keeps head]

theorem everywhere_mapHeads {property : Node → Prop}
    (blind : ∀ node, property (node.mapHeads change) ↔ property node) (node : Node) :
    (node.mapHeads change).Everywhere property ↔ node.Everywhere property := by
  induction node using Node.induction with
  | step node induction =>
      rw [everywhere_iff, everywhere_iff, blind, children_mapHeads]
      simp only [List.forall_mem_map]
      apply and_congr_right
      intro _
      exact forall_congr' fun child => forall_congr' fun member => induction child member

theorem Everywhere.mapHeads {property other : Node → Prop} {node : Node}
    (holds : node.Everywhere property)
    (implies : ∀ part, property part → other (part.mapHeads change)) :
    (node.mapHeads change).Everywhere other := by
  induction node using Node.induction with
  | step node induction =>
      refine everywhere_iff.2 ⟨implies node holds.here, ?_⟩
      rw [children_mapHeads, List.forall_mem_map]
      exact fun child member => induction child member (holds.child member)

theorem everywhere_of_mapHeads_eq {property : Node → Prop}
    (blind : ∀ node, property (node.mapHeads change) ↔ property node) {node other : Node}
    (same : node.mapHeads change = other.mapHeads change) (holds : other.Everywhere property) :
    node.Everywhere property := by
  rwa [← everywhere_mapHeads blind, same, everywhere_mapHeads blind]

end

/-! Without origins. -/

/-- The same tree, none of whose nodes remembers where it was read. -/
def withoutOrigins : Node → Node := mapHeads fun head => { head with origin := none }

theorem withoutOrigins_mk (head : NodeHead) (children : List Node) :
    withoutOrigins ⟨head, children⟩ =
      ⟨{ head with origin := none }, children.map withoutOrigins⟩ :=
  mapHeads_mk head children

theorem withoutOrigins_eq (node : Node) : node.withoutOrigins =
    ⟨{ node.toNodeHead with origin := none }, node.children.map withoutOrigins⟩ := by
  cases node
  rw [withoutOrigins_mk]

theorem id_withoutOrigins (node : Node) : node.withoutOrigins.id = node.id := by
  rw [withoutOrigins_eq]

@[simp] theorem written_withoutOrigins (node : Node) :
    node.withoutOrigins.written = node.written := by
  apply written_mapHeads
  exact fun _ => ⟨rfl, rfl, rfl⟩

/-! Without formatting. -/

/-- The same tree with all formatting in front of its nodes left to a printer. -/
def unlaid : Node → Node := mapHeads fun head => { head with leading := none, origin := none }

theorem unlaid_mk (head : NodeHead) (children : List Node) :
    unlaid ⟨head, children⟩ =
      ⟨{ head with leading := none, origin := none }, children.map unlaid⟩ :=
  mapHeads_mk head children

theorem unlaid_eq (node : Node) : node.unlaid =
    ⟨{ node.toNodeHead with leading := none, origin := none }, node.children.map unlaid⟩ := by
  cases node
  rw [unlaid_mk]

/-! With other identities, and without any. -/

def renumberHead (numbering : NodeId → NodeId) (head : NodeHead) : NodeHead :=
  { head with id := numbering head.id }

/-- The same tree with other numbers. -/
def renumber (numbering : NodeId → NodeId) : Node → Node := mapHeads (renumberHead numbering)

theorem renumber_mk (numbering : NodeId → NodeId) (head : NodeHead) (children : List Node) :
    renumber numbering ⟨head, children⟩ =
      ⟨renumberHead numbering head, children.map (renumber numbering)⟩ :=
  mapHeads_mk head children

/-- The same tree before its nodes were numbered. -/
def withoutIds : Node → Node := mapHeads fun head => { head with id := .unnumbered }

@[simp] theorem withoutIds_renumber (numbering : NodeId → NodeId) (node : Node) :
    (node.renumber numbering).withoutIds = node.withoutIds :=
  mapHeads_mapHeads node

theorem withoutIds_mk (head : NodeHead) (children : List Node) :
    withoutIds ⟨head, children⟩ = ⟨{ head with id := .unnumbered }, children.map withoutIds⟩ :=
  mapHeads_mk head children

theorem withoutIds_withId (node : Node) (id : NodeId) :
    (node.withId id).withoutIds = node.withoutIds := by
  cases node
  rfl

mutual

theorem withoutIds_number : ∀ (node : Node) (next : Nat),
    (node.number next).1.withoutIds = node.withoutIds
  | ⟨head, children⟩, next => by
      rw [number, withoutIds_mk, withoutIds_mk, map_withoutIds_numberAll children]

theorem map_withoutIds_numberAll : ∀ (nodes : List Node) (next : Nat),
    (numberAll next nodes).1.map withoutIds = nodes.map withoutIds
  | [], _ => rfl
  | node :: rest, next => by
      rw [numberAll, List.map_cons, List.map_cons, withoutIds_number node,
        map_withoutIds_numberAll rest]

end

/-! The shape. -/

/-- The head without leading formatting, identity and origin. -/
def bareHead (head : NodeHead) : NodeHead :=
  { head with id := .unnumbered, leading := none, origin := none }

/-- A tree without the formatting in front of its nodes, their identities and their origins. Kinds,
texts, trailing formatting, markers and children are left. -/
def bare : Node → Node := mapHeads bareHead

theorem bare_mk (head : NodeHead) (children : List Node) :
    bare ⟨head, children⟩ = ⟨bareHead head, children.map bare⟩ :=
  mapHeads_mk head children

@[simp] theorem kind_bare (node : Node) : node.bare.kind = node.kind := by
  cases node
  rw [bare_mk]
  rfl

@[simp] theorem bare_withoutOrigins (node : Node) : node.withoutOrigins.bare = node.bare :=
  mapHeads_mapHeads node

@[simp] theorem bare_withoutIds (node : Node) : node.withoutIds.bare = node.bare :=
  mapHeads_mapHeads node

@[simp] theorem text_bare (node : Node) : node.bare.text = node.text := by
  cases node
  rw [bare_mk]
  rfl

@[simp] theorem children_bare (node : Node) : node.bare.children = node.children.map bare :=
  children_mapHeads node

@[simp] theorem is_bare (node : Node) (kind : Kind) : node.bare.is kind = node.is kind := by
  rw [is, is, kind_bare]

@[simp] theorem childrenOfKind_bare (node : Node) (kind : Kind) :
    node.bare.childrenOfKind kind = (node.childrenOfKind kind).map bare := by
  rw [childrenOfKind, childrenOfKind, children_bare, List.filter_map]
  simp only [Function.comp_def, is_bare]

@[simp] theorem tokensText_bare (node : Node) : node.bare.tokensText = node.tokensText := by
  apply tokensText_mapHeads
  exact fun _ => rfl

/-! ## Regular trees -/

/-- A node as a reader builds it: a token with text and no children, or children without text. -/
structure Regular (node : Node) : Prop where
  trailing : node.trailing = .empty
  leafOrBranch : (node.kind.isToken = true ∧ node.text.isSome ∧ node.children = []) ∨
    (node.kind.isToken = false ∧ node.text = none ∧ node.children ≠ [])

theorem Regular.noText {node : Node} (regular : node.Regular) (some : node.children ≠ []) :
    node.text = none := by
  rcases regular.leafOrBranch with ⟨-, -, none⟩ | ⟨-, none, -⟩
  · exact absurd none some
  · exact none

/-- Whether a node is regular is seen from its kind, from its trailing formatting and from
whether it has text and children. -/
theorem regular_mapHeads {change : NodeHead → NodeHead}
    (keeps : ∀ head, (change head).kind = head.kind ∧ (change head).trailing = head.trailing ∧
      (change head).text.isSome = head.text.isSome) (node : Node) :
    (node.mapHeads change).Regular ↔ node.Regular := by
  have children : (node.mapHeads change).children = [] ↔ node.children = [] :=
    children_mapHeads_eq_nil_iff node
  have text : (change node.toNodeHead).text = none ↔ node.text = none := by
    rw [← Option.not_isSome_iff_eq_none, ← Option.not_isSome_iff_eq_none, (keeps _).2.2]
  constructor
  · rintro ⟨trailing, either⟩
    rw [toNodeHead_mapHeads, (keeps _).2.1] at trailing
    rw [toNodeHead_mapHeads, (keeps _).1, (keeps _).2.2, text, ne_eq, children] at either
    exact ⟨trailing, either⟩
  · rintro ⟨trailing, either⟩
    constructor
    · rw [toNodeHead_mapHeads, (keeps _).2.1]
      exact trailing
    · rw [toNodeHead_mapHeads, (keeps _).1, (keeps _).2.2, text, ne_eq, children]
      exact either

theorem regular_bare_iff (node : Node) : node.bare.Regular ↔ node.Regular :=
  @regular_mapHeads bareHead (fun _ => ⟨rfl, rfl, rfl⟩) node

theorem everywhere_regular_bare_iff (node : Node) :
    node.bare.Everywhere Regular ↔ node.Everywhere Regular :=
  everywhere_mapHeads regular_bare_iff node

/-! ## The leaves -/

/-- A node without children, with all formatting that stands in front of it: its own and that of the
nodes that begin with it, outermost first. -/
structure Leaf where
  fronts : List Trivia
  kind : Kind
  text : Option String
  deriving DecidableEq, Repr

/-- The formatting of a node, unless there is none. -/
def ownFront (head : NodeHead) : List Trivia :=
  [head.leading.getD .empty].filter fun trivia => !trivia.isEmpty

mutual

/-- The leaves of a node from left to right. `fronts` is the formatting of the nodes that begin with
this one. -/
def leavesBehind (fronts : List Trivia) : Node → List Leaf
  | ⟨head, children⟩ =>
    if children.isEmpty then [⟨fronts ++ ownFront head, head.kind, head.text⟩]
    else leavesOfAll (fronts ++ ownFront head) children

def leavesOfAll (fronts : List Trivia) : List Node → List Leaf
  | [] => []
  | first :: rest => first.leavesBehind fronts ++ leavesOfAll [] rest

end

def leaves (node : Node) : List Leaf := node.leavesBehind []

theorem leavesOfAll_nil (nodes : List Node) : leavesOfAll [] nodes = nodes.flatMap leaves := by
  induction nodes with
  | nil => rfl
  | cons first rest induction => rw [leavesOfAll, induction, List.flatMap_cons, leaves]

theorem leavesOfAll_cons (fronts : List Trivia) (first : Node) (rest : List Node) :
    leavesOfAll fronts (first :: rest) = first.leavesBehind fronts ++ rest.flatMap leaves := by
  rw [leavesOfAll, leavesOfAll_nil]

theorem leavesBehind_mapHeads_of_texts {change : NodeHead → NodeHead} {spell : Leaf → Leaf}
    (keeps : ∀ head, (change head).leading = head.leading) {node : Node}
    (spells : node.Everywhere fun part => ∀ fronts, spell ⟨fronts, part.kind, part.text⟩ =
      ⟨fronts, (change part.toNodeHead).kind, (change part.toNodeHead).text⟩)
        (fronts : List Trivia) :
    (node.mapHeads change).leavesBehind fronts = (node.leavesBehind fronts).map spell := by
  induction node using Node.induction generalizing fronts with
  | step node induction =>
      rcases node with ⟨head, children⟩
      have own : ownFront (change head) = ownFront head := by
        rw [ownFront, ownFront, keeps]
      rw [mapHeads_mk, leavesBehind, leavesBehind, own]
      cases children with
      | nil => exact congrArg (fun leaf => [leaf]) (spells.here _).symm
      | cons first rest =>
          rw [List.forall_mem_cons] at induction
          have others : (rest.map (mapHeads change)).map leaves =
              rest.map fun child => child.leaves.map spell := by
            rw [List.map_map]
            exact List.map_congr_left fun child member =>
              induction.2 child member (spells.child (List.mem_cons_of_mem _ member)) []
          rw [List.map_cons, leavesOfAll_cons, leavesOfAll_cons,
            induction.1 (spells.child List.mem_cons_self), List.flatMap_def,
            List.flatMap_def, others]
          simp only [List.isEmpty_cons, Bool.false_eq_true, if_false, List.map_append,
            List.map_flatten, List.map_map]
          rfl

theorem leavesBehind_mapHeads {change : NodeHead → NodeHead}
    (keeps : ∀ head, (change head).kind = head.kind ∧ (change head).text = head.text ∧
      (change head).leading = head.leading) (node : Node) (fronts : List Trivia) :
    (node.mapHeads change).leavesBehind fronts = node.leavesBehind fronts := by
  rw [@leavesBehind_mapHeads_of_texts change id fun head => (keeps head).2.2, List.map_id]
  exact fun part _ fronts => by rw [(keeps _).1, (keeps _).2.1]; rfl

@[simp] theorem leaves_withoutOrigins (node : Node) : node.withoutOrigins.leaves = node.leaves := by
  apply leavesBehind_mapHeads
  exact fun _ => ⟨rfl, rfl, rfl⟩

end Node

end Verbatim
