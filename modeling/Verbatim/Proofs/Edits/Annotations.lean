import Verbatim.Edits.RemoveAnnotations
import Verbatim.Proofs.Traversal.Deciding
import Verbatim.Proofs.Traversal.Siblings
import Verbatim.Proofs.Tree.Numbering

/-! What is made of a tree when annotations are removed. A message tells a declaration that its
first child is gone; there is such a message just when the first child was a matching
annotation. So what becomes of a node can be told from the node alone, without messages and
trails. -/

namespace Verbatim

namespace RemoveAnnotations

variable (edit : RemoveAnnotations)

/-- The first child will be removed. -/
def losesFirst (node : Node) : Bool := node.children.head?.any edit.removes

/-- What becomes of a node that is not removed, when this has become of its children. -/
def settle (node : Node) (transforms : List Transform) : Transform :=
  let current := node.after transforms
  let result := Transform.ofChange (!transforms.all (·.isKeep)) current
  if node.kind.isDeclaration && edit.losesFirst node then (stripFirst current).over result
  else result

mutual

def turn : Node → Transform
  | ⟨head, children⟩ =>
    if edit.removes ⟨head, children⟩ then .remove
    else edit.settle ⟨head, children⟩ (turnAll children)

def turnAll : List Node → List Transform
  | [] => []
  | node :: rest => turn node :: turnAll rest

end

theorem turnAll_eq_map (nodes : List Node) : edit.turnAll nodes = nodes.map edit.turn := by
  induction nodes with
  | nil => rfl
  | cons node rest induction => rw [turnAll, induction, List.map_cons]

theorem turn_eq (node : Node) :
    edit.turn node = if edit.removes node then .remove
      else edit.settle node (node.children.map edit.turn) := by
  rcases node with ⟨head, children⟩
  rw [turn, turnAll_eq_map]

/-! ## Messages -/

def notes (gone : Bool) : List (String × Message) :=
  if gone then [(firstRemoved, .bool true)] else []

theorem put_notes (gone : Bool) (inner : List (String × Message))
    (outer : List (List (String × Message))) :
    (Board.mk (inner :: notes gone :: outer)).put 1 firstRemoved (.bool true) =
      ⟨inner :: notes true :: outer⟩ := by
  cases gone <;> rfl

variable {edit} {node : Node} {above : List Node} {session : Session}

theorem visit_of_kept (kept : edit.removes node = false) (trail : Trail) :
    (edit.visitor.visit node trail).run.run session = (.ok .keep, session) := by
  show (edit.visit node trail).run.run session = _
  rw [visit, kept]
  rfl

theorem visit_of_removed (removed : edit.removes node = true) {parent : Node} {gone : Bool}
    {inner : List (String × Message)} {outer : List (List (String × Message))}
    (board : session.board = ⟨inner :: notes gone :: outer⟩) :
    (edit.visitor.visit node ⟨node, parent :: above⟩).run.run session =
      (.ok .remove, { session with board := ⟨inner ::
        notes ((Trail.mk node (parent :: above)).previousSibling?.isNone || gone) :: outer⟩ }) := by
  show (edit.visit node ⟨node, parent :: above⟩).run.run session = _
  rw [visit, removed]
  show (if (Trail.mk node (parent :: above)).previousSibling?.isNone && true then do
      HookM.put 1 firstRemoved (.bool true)
      return .remove
    else return .remove : HookM Visit) ⟨node, parent :: above⟩ session = _
  cases (Trail.mk node (parent :: above)).previousSibling?.isNone with
  | false =>
      rw [Bool.false_or, ← board]
      rfl
  | true =>
      rw [Bool.true_or, ← put_notes gone inner outer, ← board]
      rfl

theorem leave_of_notes {gone : Bool} {outer : List (List (String × Message))}
    (board : session.board = ⟨notes gone :: outer⟩) (trail : Trail) :
    ∃ own, (edit.visitor.leave node trail).run.run session =
      (.ok (if node.kind.isDeclaration && gone then stripFirst node else .keep),
        { session with board := ⟨own :: outer⟩ }) := by
  show ∃ own, (leave node trail).run.run session = _
  rw [leave]
  cases node.kind.isDeclaration with
  | false => exact ⟨notes gone, by rw [← board]; rfl⟩
  | true =>
      refine ⟨[], ?_⟩
      rcases session with ⟨_, nextId, cancelled, log⟩
      cases board
      cases gone <;> rfl

/-! ## Siblings -/

def stripAll : List Node → List Node
  | [] => []
  | first :: rest => stripLeading first :: rest

theorem exists_settled (node : Node) (transforms : List Transform) :
    ∃ changed, edit.settle node transforms = .ofOption changed ∧
      (changed.getD node).children =
        (if node.kind.isDeclaration && edit.losesFirst node then
          stripAll (node.childrenAfter transforms)
        else node.childrenAfter transforms) ∧
      ({ (changed.getD node).toNodeHead with origin := none } : NodeHead) =
        { node.toNodeHead with origin := none } := by
  have head : ({ (node.after transforms).toNodeHead with origin := none } : NodeHead) =
      { node.toNodeHead with origin := none } := by
    rw [Node.after]
    split <;> rfl
  have result : ∃ changed, Transform.ofChange (!transforms.all (·.isKeep)) (node.after transforms) =
      .ofOption changed ∧ changed.getD node = node.after transforms := by
    cases kept : transforms.all (·.isKeep) with
    | true => exact ⟨none, rfl, by rw [Node.after, if_pos kept, Option.getD_none]⟩
    | false => exact ⟨some (node.after transforms), rfl, rfl⟩
  rcases result with ⟨changed, result, same⟩
  rw [settle]
  split
  case isFalse => exact ⟨changed, result, by rw [same, Node.children_after], by rw [same, head]⟩
  case isTrue =>
    rw [stripFirst, Node.children_after]
    cases children : node.childrenAfter transforms with
    | nil =>
        exact ⟨changed, result,
          by rw [same, Node.children_after, children]; rfl, by rw [same, head]⟩
    | cons first rest => exact ⟨some _, rfl, rfl, head⟩

theorem ids_turn (node : Node) :
    ((edit.turn node).nodes node).map (·.id) = if edit.removes node then [] else [node.id] := by
  rw [turn_eq]
  split
  · rfl
  · rcases edit.exists_settled node (node.children.map edit.turn) with ⟨changed, settled, -, head⟩
    rw [settled, Transform.nodes_ofOption, List.map_singleton]
    exact congrArg (fun id => [id]) (congrArg NodeHead.id head :)

/-- What has become of nodes. -/
def left (edit : RemoveAnnotations) (nodes : List Node) : List Node :=
  nodes.flatMap fun node => (edit.turn node).nodes node

theorem childrenAfter_turn {done rest : List Node} (children : node.children = done ++ rest) :
    node.childrenAfter (done.map edit.turn) = left edit done ++ rest := by
  rw [Node.childrenAfter, Node.produced, List.length_map, children, List.drop_left, left]
  congr 1
  clear children
  induction done with
  | nil => rw [List.map_nil, List.zipWith_nil_right, List.flatten_nil, List.flatMap_nil]
  | cons first done induction =>
      rw [List.map_cons, List.cons_append, List.zipWith_cons_cons, List.flatten_cons, induction,
        List.flatMap_cons]

theorem settled_of_turn {changed : Option Node} (kept : edit.removes node = false)
    (turned : edit.turn node = .ofOption changed) :
    (changed.getD node).children = (if node.kind.isDeclaration && edit.losesFirst node then
        stripAll (left edit node.children) else left edit node.children) ∧
      ({ (changed.getD node).toNodeHead with origin := none } : NodeHead) =
        { node.toNodeHead with origin := none } := by
  rcases edit.exists_settled node (node.children.map edit.turn) with
    ⟨other, settled, children, head⟩
  rw [turn_eq, kept, if_neg Bool.false_ne_true, settled] at turned
  rw [childrenAfter_turn (List.append_nil _).symm, List.append_nil] at children
  exact Transform.ofOption_inj turned ▸ ⟨children, head⟩

theorem exists_turn (kept : edit.removes node = false) :
    ∃ changed, edit.turn node = .ofOption changed := by
  rcases edit.exists_settled node (node.children.map edit.turn) with ⟨changed, settled, -⟩
  exact ⟨changed, by rw [turn_eq, kept, if_neg Bool.false_ne_true, settled]⟩

theorem left_cons (first : Node) (rest : List Node) :
    (edit.removes first = true ∧ left edit (first :: rest) = left edit rest) ∨
      ∃ changed, edit.removes first = false ∧ edit.turn first = .ofOption changed ∧
        left edit (first :: rest) = changed.getD first :: left edit rest := by
  rw [left, List.flatMap_cons, ← left]
  cases removed : edit.removes first with
  | true => exact .inl ⟨rfl, by rw [turn_eq, if_pos removed]; rfl⟩
  | false =>
      rcases exists_turn removed with ⟨changed, turned⟩
      exact .inr ⟨changed, rfl, turned, by rw [turned, Transform.nodes_ofOption]; rfl⟩

theorem ids_left_sublist (nodes : List Node) :
    ((left edit nodes).map (·.id)).Sublist (nodes.map (·.id)) := by
  induction nodes with
  | nil => exact .slnil
  | cons node rest induction =>
      rw [left, List.flatMap_cons, List.map_append, ids_turn, List.map_cons]
      split
      · exact .cons _ induction
      · exact .cons_cons _ induction

theorem left_eq_nil_iff {nodes : List Node} :
    left edit nodes = [] ↔ ∀ node ∈ nodes, edit.removes node = true := by
  rw [left, List.flatMap_eq_nil_iff]
  apply forall_congr'
  intro node
  apply imp_congr_right
  intro _
  rw [← List.map_eq_nil_iff (f := (·.id)), ids_turn]
  cases edit.removes node <;> simp

/-! ## The walk -/

section

open Walk

variable {limits : WalkLimits} {state : WalkState}

/-- This comes of the traversal of a node or of its children, with these messages in the end. -/
def Results {α : Type} (value : α) (levels : List (List (String × Message))) (state : WalkState)
    (result : Except WalkError α × WalkState) : Prop :=
  ∃ after, result = (.ok value, after) ∧
    after.session = { state.session with board := ⟨levels⟩ } ∧ after.stopped = false

theorem results_removed (removed : edit.removes node = true) {parent : Node} (depth : Nat)
    (trail : state.trail = ⟨node, parent :: above⟩) (going : state.stopped = false)
    (accepted : refusal? limits state.session = none) {gone : Bool}
    {inner : List (String × Message)} {outer : List (List (String × Message))}
    (board : state.session.board = ⟨inner :: notes gone :: outer⟩) :
    Results (edit.turn node)
      (inner :: notes ((Trail.mk node (parent :: above)).previousSibling?.isNone || gone) :: outer)
      state (runAt (walkNode edit.visitor limits (depth + 1) node) state) := by
  rw [runAt_walkNode_succ, accepted]
  simp only
  rw [Walk.visit, runAt_call, trail, visit_of_removed removed board, turn_eq, if_pos removed]
  exact ⟨_, rfl, rfl, going⟩

/-- Nodes that are not too high and are not removed turn into what they should. -/
def NodesTurn (edit : RemoveAnnotations) (limits : WalkLimits) (depth : Nat) : Prop :=
  ∀ (node : Node) (above : List Node) (state : WalkState) (outer : List (List (String × Message))),
    node.height ≤ depth → node.Everywhere Node.Distinct → edit.removes node = false →
    state.trail = ⟨node, above⟩ → state.stopped = false → refusal? limits state.session = none →
    state.session.board = ⟨[] :: outer⟩ →
    ∃ own, Results (edit.turn node) (own :: outer) state
      (runAt (walkNode edit.visitor limits depth node) state)

theorem notes_next {done rest : List Node} {child parent : Node}
    (children : parent.children = left edit done ++ child :: rest) (distinct : parent.Distinct)
    (above : List Node) :
    (if edit.removes child then
      (Trail.mk child (parent :: above)).previousSibling?.isNone || done.head?.any edit.removes
      else done.head?.any edit.removes) = (done ++ [child]).head?.any edit.removes := by
  rw [Trail.previousSibling?_of_nodup children distinct]
  cases done with
  | nil => cases removed : edit.removes child <;> simp [left, removed]
  | cons first others =>
      rw [List.cons_append, List.head?_cons, List.head?_cons, Option.any_some]
      split
      case isFalse => rfl
      case isTrue =>
        cases kept : edit.removes first with
        | true => rw [Bool.or_true]
        | false =>
            -- what is left of the first child stands in front
            rw [Bool.or_false, Option.isNone_eq_false_iff, Option.isSome_iff_ne_none, ne_eq,
              List.getLast?_eq_none_iff, left_eq_nil_iff]
            intro all
            rw [all first List.mem_cons_self] at kept
            cases kept

theorem results_goThrough {depth : Nat} (each : NodesTurn edit limits depth)
    (distinct : node.Everywhere Node.Distinct) (fit : ∀ child ∈ node.children, child.height ≤ depth)
    {done rest : List Node} (children : node.children = done ++ rest)
    (here : state.trail.here = node.after (done.map edit.turn)) (going : state.stopped = false)
    (accepted : refusal? limits state.session = none) {outer : List (List (String × Message))}
    (board : state.session.board = ⟨notes (done.head?.any edit.removes) :: outer⟩) :
    Results (node.children.map edit.turn) (notes (edit.losesFirst node) :: outer) state
      (runAt (goThrough (walkNode edit.visitor limits depth) node (done.map edit.turn) rest)
        state) := by
  induction rest generalizing done state with
  | nil =>
      rw [List.append_nil] at children
      refine ⟨state, ?_, ?_, going⟩
      · rw [goThrough, runAt_pure, children]
      · rw [losesFirst, children, ← board]
  | cons child rest induction =>
      have isChild : child ∈ node.children := by
        rw [children]
        exact List.mem_append_right _ List.mem_cons_self
      have present : (node.after (done.map edit.turn)).children =
          left edit done ++ child :: rest := by
        rw [Node.children_after, childrenAfter_turn children]
      have different : Node.Distinct (node.after (done.map edit.turn)) := by
        rw [Node.Distinct, present]
        refine List.Nodup.sublist ?_ (distinct node node.self_mem_preorder)
        rw [children, List.map_append, List.map_append]
        exact (ids_left_sublist done).append_right _
      have trail : (state.down child).trail =
          ⟨child, node.after (done.map edit.turn) :: state.trail.above⟩ := by
        rw [← here]
        rfl
      have entered : (state.down child).session.board =
          ⟨[] :: notes (done.head?.any edit.removes) :: outer⟩ := by
        show state.session.board.enter = _
        rw [board]
        rfl
      -- the child turns into what it should, and the messages are those for the next one
      have walked : ∃ own, Results (edit.turn child)
          (own :: notes ((done ++ [child]).head?.any edit.removes) :: outer) (state.down child)
          (runAt (walkNode edit.visitor limits depth child) (state.down child)) := by
        rw [← notes_next present different state.trail.above]
        cases removed : edit.removes child with
        | false =>
            exact each child _ (state.down child) _ (fit child isChild) (distinct.child isChild)
              removed trail going accepted entered
        | true =>
            cases depth with
            | zero => exact absurd child.height_pos (Nat.not_lt.2 (fit child isChild))
            | succ depth => exact ⟨_, results_removed removed depth trail going accepted entered⟩
      rcases walked with ⟨own, middle, ran, session, on⟩
      rw [runAt_goThrough_cons going, ran, followed_ok]
      have back : (middle.back state.trail).session = { state.session with
          board := ⟨notes ((done ++ [child]).head?.any edit.removes) :: outer⟩ } := by
        show { middle.session with board := middle.session.board.leave } = _
        rw [session]
        rfl
      have mapped : done.map edit.turn ++ [edit.turn child] = (done ++ [child]).map edit.turn := by
        rw [List.map_append, List.map_singleton]
      rw [mapped]
      have shown : ((middle.back state.trail).showing
          (node.after ((done ++ [child]).map edit.turn))).trail.here =
            node.after ((done ++ [child]).map edit.turn) := rfl
      rcases induction (by rw [children, List.append_assoc]; rfl) shown on
        (by rw [WalkState.showing, back]; exact accepted) (congrArg Session.board back)
        with ⟨after, went, sessionAfter, stopped⟩
      refine ⟨after, went, ?_, stopped⟩
      rw [sessionAfter, WalkState.showing, back]

theorem nodesTurn_walkNode (depth : Nat) : NodesTurn edit limits depth := by
  induction depth with
  | zero => exact fun node _ _ _ fit => absurd node.height_pos (Nat.not_lt.2 fit)
  | succ depth induction =>
      intro node above state outer fit distinct kept trail going accepted board
      rw [runAt_walkNode_succ, accepted]
      simp only
      rw [Walk.visit, runAt_call, visit_of_kept kept]
      simp only [mapError_ok, followed_ok]
      rw [if_neg (by simp [Visit.keep])]
      simp only [Visit.keep, Transform.node?]
      have low : ∀ child ∈ node.children, child.height ≤ depth := fun child member =>
        Nat.le_of_lt_succ (Nat.lt_of_lt_of_le (Node.height_lt_of_mem member) fit)
      generalize called : state.after state.session _ = middle
      have session : middle.session = state.session := called ▸ rfl
      have around : middle.trail = state.trail := called ▸ rfl
      have shown : (middle.showing node).trail.here = node.after (List.map edit.turn []) := rfl
      have empty : (middle.showing node).session.board =
          ⟨notes ((List.head? []).any edit.removes) :: outer⟩ := by
        rw [WalkState.showing, session, board]
        rfl
      rcases results_goThrough induction distinct low (List.nil_append _).symm shown
        (called ▸ going)
        (by rw [WalkState.showing, session]; exact accepted) empty
        with ⟨after, went, sessionAfter, stopped⟩
      have below : runAt (goThrough (walkNode edit.visitor limits depth) node [] node.children)
          (middle.showing node) = (.ok (node.children.map edit.turn), after) := went
      rw [show (!Transform.keep.isKeep) = false from rfl, decide_true, runAt_finishNode_descend,
        below, followed_ok, stopped]
      simp only [Bool.false_eq_true, if_false, Bool.false_or]
      have noted : after.session.board = ⟨notes (edit.losesFirst node) :: outer⟩ := by
        rw [sessionAfter]
      rcases leave_of_notes noted
        after.trail with ⟨own, left⟩
      refine ⟨own, ?_⟩
      rw [runAt_lookAgain left, Node.kind_after]
      refine ⟨_, Prod.ext ?_ rfl, ?_, stopped⟩
      · rw [turn_eq, kept, if_neg Bool.false_ne_true, settle]
        simp only [Except.map, mapError_ok]
        split <;> rfl
      · show { after.session with board := ⟨own :: outer⟩ } = _
        rw [sessionAfter, WalkState.showing, session]

end

theorem walk_of_distinct {limits : WalkLimits} (time : limits.expired = false) {root : Node}
    (distinct : root.Everywhere Node.Distinct) (kept : edit.removes root = false)
    (going : session.cancelled = false) :
    ∃ changed after, walk edit.visitor limits root session = (.ok changed, after) ∧
      after.cancelled = false ∧ edit.turn root = .ofOption changed := by
  have accepted : Walk.refusal? limits (Walk.start root session).session = none := by
    simp [Walk.refusal?, Walk.start, going, time]
  rcases nodesTurn_walkNode (root.height + limits.spareDepth) root []
    (Walk.start root session) [] (Nat.le_add_right ..) distinct kept rfl rfl accepted rfl with
    ⟨own, after, ran, sessionAfter, -⟩
  have stillGoing : after.session.cancelled = false := by
    rw [sessionAfter]
    exact going
  rcases exists_turn kept with ⟨changed, turned⟩
  refine ⟨changed, after.session, ?_, stillGoing, turned⟩
  rw [walk, Walk.walkRoot, ran, turned]
  cases changed <;> rfl

end RemoveAnnotations

end Verbatim
