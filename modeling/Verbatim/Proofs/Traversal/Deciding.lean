import Verbatim.Proofs.Traversal.Steps
import Verbatim.Proofs.Tree.Contents

/-! Visitors that decide by what they look at. The first look tells from the node and from the
kind of its parent whether another node takes its place and whether the children are looked at
too; there is no second look, and the session is left alone. What such a traversal makes of a
tree can be told without any of its states. -/

namespace Verbatim

/-- What a first look at a node decides. -/
structure Look where
  changed : Option Node
  descends : Bool

namespace Transform

def ofOption : Option Node → Transform
  | none => .keep
  | some node => .replace node

@[simp] theorem isKeep_ofOption (changed : Option Node) :
    (ofOption changed).isKeep = !changed.isSome := by
  cases changed <;> rfl

theorem ofOption_inj {changed other : Option Node} (same : ofOption changed = ofOption other) :
    changed = other := by
  cases changed <;> cases other <;> cases same <;> rfl

@[simp] theorem nodes_ofOption (node : Node) (changed : Option Node) :
    (ofOption changed).nodes node = [changed.getD node] := by
  cases changed <;> rfl

end Transform

namespace Look

def visit (look : Look) : Visit :=
  ⟨.ofOption look.changed, if look.descends then .descend else .skipChildren⟩

variable (looks : Option Kind → Node → Look)

/-- What becomes of a node whose parent is of the given kind, if anything does. A parent is rebuilt
only when something has become of one of its children. -/
def become : (depth : Nat) → Option Kind → Node → Option Node
  | 0, _, _ => none
  | depth + 1, parent, node =>
    let look := looks parent node
    let current := look.changed.getD node
    let child (child : Node) : Option Node := become depth (some current.kind) child
    if look.descends && current.children.any fun node => (child node).isSome then
      some (current.withChildren (current.children.map fun node => (child node).getD node))
    else look.changed

end Look

/-- The visitor looks at nodes of some sort in this way. What it puts in their place is never
higher, and has children of that sort. -/
structure Visitor.DecidesOn (visitor : Visitor) (sort : Node → Prop)
    (looks : Option Kind → Node → Look) : Prop where
  visit : ∀ (node : Node) (above : List Node) (session : Session), sort node →
    (visitor.visit node ⟨node, above⟩).run.run session =
      (.ok (looks (above.head?.map (·.kind)) node).visit, session)
  leave : ∀ (node : Node) (trail : Trail) (session : Session),
    (visitor.leave node trail).run.run session = (.ok .keep, session)
  height_le : ∀ (parent : Option Kind) (node new : Node),
    (looks parent node).changed = some new → new.height ≤ node.height
  child : ∀ (parent : Option Kind) (node : Node), sort node →
    ∀ child ∈ ((looks parent node).changed.getD node).children, sort child

abbrev Visitor.Decides (visitor : Visitor) (looks : Option Kind → Node → Look) : Prop :=
  visitor.DecidesOn (fun _ => True) looks

theorem Visitor.DecidesOn.height_getD_le {visitor : Visitor} {sort : Node → Prop}
    {looks : Option Kind → Node → Look} (decides : visitor.DecidesOn sort looks)
    (parent : Option Kind) (node : Node) :
    ((looks parent node).changed.getD node).height ≤ node.height := by
  cases new : (looks parent node).changed with
  | none => exact Nat.le_refl _
  | some other => exact decides.height_le parent node other new

namespace Node

theorem height_eq (node : Node) : node.height = heightOfAll node.children + 1 := by
  cases node
  rw [height]

theorem height_le_heightOfAll {nodes : List Node} {node : Node} (member : node ∈ nodes) :
    node.height ≤ heightOfAll nodes := by
  induction nodes with
  | nil => cases member
  | cons first rest induction =>
      rw [heightOfAll]
      rcases List.mem_cons.1 member with rfl | member
      · exact Nat.le_max_left ..
      · exact Nat.le_trans (induction member) (Nat.le_max_right ..)

theorem height_lt_of_mem {node child : Node} (member : child ∈ node.children) :
    child.height < node.height := by
  rw [height_eq node]
  exact Nat.lt_succ_of_le (height_le_heightOfAll member)

theorem height_pos (node : Node) : 0 < node.height := by
  rw [height_eq]
  exact Nat.succ_pos _

theorem childrenAfter_ofOption (node : Node) (changed : Node → Option Node) :
    node.childrenAfter (node.children.map fun child => .ofOption (changed child)) =
      node.children.map fun child => (changed child).getD child := by
  rw [childrenAfter, List.length_map, List.drop_length, List.append_nil, produced]
  generalize node.children = children
  induction children with
  | nil => rfl
  | cons child rest induction =>
      rw [List.map_cons, List.zipWith_cons_cons, List.flatten_cons, induction,
        Transform.nodes_ofOption, List.map_cons, List.singleton_append]

@[simp] theorem kind_after (node : Node) (transforms : List Transform) :
    (node.after transforms).kind = node.kind := by
  rw [after]
  split <;> rfl

end Node

namespace Walk

variable {visitor : Visitor} {sort : Node → Prop} {looks : Option Kind → Node → Look}
  {limits : WalkLimits} {state : WalkState}

theorem runAt_visit_of_decides (decides : visitor.DecidesOn sort looks) {node : Node}
    (here : sort node) {above : List Node} (trail : state.trail = ⟨node, above⟩) :
    ∃ call, runAt (visit visitor node) state =
      (.ok (looks (above.head?.map (·.kind)) node).visit, state.after state.session call) := by
  rw [visit, runAt_call, trail, decides.visit node above _ here]
  exact ⟨_, rfl⟩

theorem runAt_lookAgain_of_decides (decides : visitor.DecidesOn sort looks) (node : Node)
    (result : Transform) (state : WalkState) :
    ∃ call, runAt (lookAgain visitor node result) state =
      (.ok result, state.after state.session call) := by
  rw [runAt_lookAgain (decides.leave node state.trail state.session)]
  exact ⟨_, rfl⟩

def Results {α : Type} (value : α) (state : WalkState)
    (result : Except WalkError α × WalkState) : Prop :=
  ∃ after, result = (.ok value, after) ∧ after.session = state.session ∧ after.stopped = false

/-- Nodes of the sort that are not too high become what the looks at them decide. -/
def NodesBecome (sort : Node → Prop) (looks : Option Kind → Node → Look) (limits : WalkLimits)
    (depth : Nat) (walkChild : Node → WalkM Transform) : Prop :=
  ∀ (node : Node) (above : List Node) (state : WalkState), sort node → node.height ≤ depth →
    state.trail = ⟨node, above⟩ → state.stopped = false → refusal? limits state.session = none →
    Results (.ofOption (Look.become looks depth (above.head?.map (·.kind)) node)) state
      (runAt (walkChild node) state)

def childrenBecome (looks : Option Kind → Node → Look) (depth : Nat) (parent : Kind)
    (children : List Node) : List Transform :=
  children.map fun child => .ofOption (Look.become looks depth (some parent) child)

theorem results_goThrough {depth : Nat} {walkChild : Node → WalkM Transform}
    (each : NodesBecome sort looks limits depth walkChild) {parent : Node}
    {transforms : List Transform} {rest : List Node}
    (fit : ∀ child ∈ rest, sort child ∧ child.height ≤ depth)
    (here : state.trail.here = parent.after transforms) (going : state.stopped = false)
    (accepted : refusal? limits state.session = none) :
    Results (transforms ++ childrenBecome looks depth parent.kind rest) state
      (runAt (goThrough walkChild parent transforms rest) state) := by
  induction rest generalizing transforms state with
  | nil =>
      refine ⟨state, ?_, rfl, going⟩
      rw [goThrough, runAt_pure, childrenBecome, List.map_nil, List.append_nil]
  | cons child rest induction =>
      have first := fit child List.mem_cons_self
      have become := each child (parent.after transforms :: state.trail.above) (state.down child)
        first.1 first.2 (by rw [← here]; rfl) going accepted
      rw [List.head?_cons, Option.map_some, Node.kind_after] at become
      rcases become with ⟨middle, ran, session, on⟩
      rw [runAt_goThrough_cons going, ran, followed_ok]
      have restored : (middle.back state.trail).session = state.session := by
        show { middle.session with board := middle.session.board.leave } = state.session
        rw [session]
        rfl
      have next : ((middle.back state.trail).showing (parent.after (transforms ++
          [.ofOption (Look.become looks depth (some parent.kind) child)]))).trail.here = _ := rfl
      rcases induction (fun node member => fit node (List.mem_cons_of_mem _ member)) next on
        (restored ▸ accepted) with ⟨after, went, sessionAfter, stopped⟩
      refine ⟨after, ?_, sessionAfter.trans restored, stopped⟩
      rw [went, childrenBecome, childrenBecome, List.map_cons, List.append_assoc,
        List.singleton_append]

section

variable {depth : Nat} {walkChild : Node → WalkM Transform}

/-- The part of the traversal behind the first look. -/
theorem results_finishNode (decides : visitor.DecidesOn sort looks)
    (each : NodesBecome sort looks limits depth walkChild) {node : Node} {look : Look}
    (below : ∀ child ∈ (look.changed.getD node).children, sort child)
    (fit : (look.changed.getD node).height ≤ depth + 1) (going : state.stopped = false)
    (accepted : refusal? limits state.session = none) :
    Results (.ofOption (if look.descends && (look.changed.getD node).children.any fun child =>
          (Look.become looks depth (some (look.changed.getD node).kind) child).isSome then
        some ((look.changed.getD node).withChildren ((look.changed.getD node).children.map
          fun child => (Look.become looks depth (some (look.changed.getD node).kind) child).getD
            child))
      else look.changed)) state
      (runAt (finishNode visitor walkChild (look.changed.getD node) look.changed.isSome
        look.descends) state) := by
  generalize isCurrent : look.changed.getD node = current at below fit ⊢
  have made : Transform.ofChange look.changed.isSome current = .ofOption look.changed := by
    rw [← isCurrent]
    cases look.changed <;> rfl
  cases look.descends with
  | false =>
      rw [runAt_finishNode_skip]
      rcases runAt_lookAgain_of_decides decides current (.ofChange look.changed.isSome current)
        (state.showing current) with ⟨call, again⟩
      rw [again, made]
      exact ⟨_, rfl, rfl, going⟩
  | true =>
      rw [runAt_finishNode_descend]
      have low : ∀ child ∈ current.children, sort child ∧ child.height ≤ depth :=
        fun child member => ⟨below child member,
          Nat.le_of_lt_succ (Nat.lt_of_lt_of_le (Node.height_lt_of_mem member) fit)⟩
      have here : (state.showing current).trail.here = current.after [] := rfl
      rcases results_goThrough each low here going accepted with ⟨after, went, session, on⟩
      rw [went, followed_ok, on, List.nil_append]
      simp only [Bool.false_eq_true, if_false]
      rcases runAt_lookAgain_of_decides decides _ _ after with ⟨call, again⟩
      rw [again]
      refine ⟨_, congrArg (fun transform => (Except.ok transform, _)) ?_, session, on⟩
      have kept : (childrenBecome looks depth current.kind current.children).all (·.isKeep) =
          !current.children.any fun child =>
            (Look.become looks depth (some current.kind) child).isSome := by
        rw [childrenBecome, List.all_map, List.not_any_eq_all_not]
        simp only [Function.comp_def, Transform.isKeep_ofOption]
      rw [Node.after, kept, Bool.not_not, Bool.true_and]
      cases current.children.any fun child =>
          (Look.become looks depth (some current.kind) child).isSome with
      | false =>
          rw [Bool.or_false]
          exact made
      | true =>
          rw [Bool.or_true, childrenBecome, Node.childrenAfter_ofOption]
          rfl

end

theorem nodesBecome_walkNode (decides : visitor.DecidesOn sort looks) (depth : Nat) :
    NodesBecome sort looks limits depth (walkNode visitor limits depth) := by
  induction depth with
  | zero => exact fun node _ _ _ fit => absurd node.height_pos (Nat.not_lt.2 fit)
  | succ depth induction =>
      intro node above state here fit trail going accepted
      rcases runAt_visit_of_decides decides here trail with ⟨call, visited⟩
      have below := decides.child (above.head?.map (·.kind)) node here
      have lower := decides.height_getD_le (above.head?.map (·.kind)) node
      rw [Look.become]
      rw [runAt_walkNode_succ, accepted]
      simp only
      rw [visited, followed_ok]
      generalize looks (above.head?.map (·.kind)) node = look at visited lower below ⊢
      have goesOn : look.visit.transform.node? node = some (look.changed.getD node) := by
        rw [Look.visit]
        cases look.changed <;> rfl
      have changed : (!look.visit.transform.isKeep) = look.changed.isSome := by
        rw [Look.visit, Transform.isKeep_ofOption, Bool.not_not]
      have notStopped : look.visit.control ≠ .stop := by
        rw [Look.visit]
        cases look.descends <;> simp
      have descends : decide (look.visit.control = .descend) = look.descends := by
        rw [Look.visit]
        cases look.descends <;> rfl
      rw [if_neg notStopped, goesOn, changed, descends]
      exact results_finishNode decides induction below (Nat.le_trans lower fit) going accepted

end Walk

theorem walk_of_decidesOn {visitor : Visitor} {sort : Node → Prop}
    {looks : Option Kind → Node → Look} (decides : visitor.DecidesOn sort looks)
    {limits : WalkLimits} (time : limits.expired = false) {root : Node} (here : sort root)
    {session : Session} (going : session.cancelled = false) :
    walk visitor limits root session =
      (.ok (Look.become looks (root.height + limits.spareDepth) none root),
        { session with board := .empty }) := by
  have accepted : Walk.refusal? limits (Walk.start root session).session = none := by
    simp [Walk.refusal?, Walk.start, going, time]
  rcases Walk.nodesBecome_walkNode decides
    (root.height + limits.spareDepth) root [] (Walk.start root session) here (Nat.le_add_right ..)
    rfl rfl accepted with ⟨after, ran, sessionAfter, -⟩
  have started : after.session = { session with board := .empty } := sessionAfter
  rw [walk, Walk.walkRoot, ran, List.head?_nil, Option.map_none, ← started]
  cases Look.become looks (root.height + limits.spareDepth) none root <;> rfl

theorem walk_of_decides {visitor : Visitor} {looks : Option Kind → Node → Look}
    (decides : visitor.Decides looks) {limits : WalkLimits} (time : limits.expired = false)
    (root : Node) {session : Session} (going : session.cancelled = false) :
    walk visitor limits root session =
      (.ok (Look.become looks (root.height + limits.spareDepth) none root),
        { session with board := .empty }) :=
  walk_of_decidesOn decides time trivial going

namespace Look

/-! ## What is made of a node -/

section

variable {looks : Option Kind → Node → Look} (depth : Nat) {parent : Option Kind} {node : Node}
  {look : Look} (looked : looks parent node = look)

include looked

theorem head_become : ({ ((become looks (depth + 1) parent node).getD node).toNodeHead with
      origin := none } : NodeHead) =
    { (look.changed.getD node).toNodeHead with origin := none } := by
  rw [become, looked]
  split <;> rfl

theorem children_become (descends : look.descends = true) :
    ((become looks (depth + 1) parent node).getD node).children =
      (look.changed.getD node).children.map fun child =>
        (become looks depth (some (look.changed.getD node).kind) child).getD child := by
  rw [become, looked, descends, Bool.true_and]
  simp only
  split
  case isTrue rebuilt => rfl
  case isFalse unchanged =>
    rw [Bool.not_eq_true, List.any_eq_false] at unchanged
    rw [← List.map_id (look.changed.getD node).children]
    simp only [List.map_map]
    apply List.map_congr_left
    intro child member
    have nothing : become looks depth (some (look.changed.getD node).kind) child = none := by
      simpa using unchanged child member
    rw [Function.comp_apply, id_eq, nothing, Option.getD_none]

theorem children_become_of_skips (skips : look.descends = false) :
    ((become looks (depth + 1) parent node).getD node).children =
      (look.changed.getD node).children := by
  rw [become, looked, skips, Bool.false_and]
  rfl

end

/-! ## Nothing to do -/

/-- Nothing is decided at the node or, as far as one looks, below it. -/
inductive Quiet (looks : Option Kind → Node → Look) : Option Kind → Node → Prop
  | quiet {parent : Option Kind} {node : Node} : (looks parent node).changed = none →
      ((looks parent node).descends = true →
        ∀ child ∈ node.children, Quiet looks (some node.kind) child) →
      Quiet looks parent node

theorem become_of_quiet {looks : Option Kind → Node → Look} {parent : Option Kind} {node : Node}
    (quiet : Quiet looks parent node) (depth : Nat) : become looks depth parent node = none := by
  induction quiet generalizing depth with
  | @quiet parent node unchanged below induction =>
      cases depth with
      | zero => rfl
      | succ depth =>
          rw [become, unchanged, Option.getD_none, if_neg]
          rw [Bool.and_eq_true, List.any_eq_true]
          rintro ⟨descends, child, member, changed⟩
          have nothing : (become looks depth (some node.kind) child).isSome = false := by
            rw [induction descends child member depth]
            rfl
          cases nothing.symm.trans changed

end Look

end Verbatim
