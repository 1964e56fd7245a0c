import Mathlib.Data.List.Forall2
import Verbatim.Proofs.Tree.Lifting

/-! Trees of the same nodes whose heads differ, and what is seen of that at the leaves. When
line breaks are added and taken away where white space stands and stays, the leaves have
formatting in front of them where they had it, and what was hoisted is still hoisted. -/

namespace Verbatim

/-- White space with other line breaks. -/
structure Trivia.Rebroken (old new : Trivia) : Prop where
  comments : new.comments = old.comments
  there : new.whitespace = "" ↔ old.whitespace = ""
  spaces : ∀ c ∈ new.whitespace.toList, c = '\n' ∨ c ∈ old.whitespace.toList

namespace Trivia.Rebroken

theorem refl (trivia : Trivia) : trivia.Rebroken trivia := ⟨rfl, .rfl, fun _ member => .inr member⟩

theorem trans {first second third : Trivia} (here : first.Rebroken second)
    (next : second.Rebroken third) : first.Rebroken third where
  comments := next.comments.trans here.comments
  there := next.there.trans here.there
  spaces c member := (next.spaces c member).elim .inl (here.spaces c)

theorem isEmpty {old new : Trivia} (rebroken : old.Rebroken new) : new.isEmpty = old.isEmpty := by
  rw [Trivia.isEmpty, Trivia.isEmpty, rebroken.comments, Bool.eq_iff_iff, Bool.and_eq_true,
    Bool.and_eq_true, String.isEmpty_iff, String.isEmpty_iff, rebroken.there]

end Trivia.Rebroken

namespace Node

/-! ## The text of leaves -/

def Leaf.written (leaf : Leaf) : String :=
  String.join (leaf.fronts.map Trivia.text) ++ leaf.text.getD ""

theorem join_ownFront (head : NodeHead) :
    String.join ((ownFront head).map Trivia.text) = (head.leading.getD .empty).text := by
  rw [ownFront_eq]
  split
  next empty => rw [Trivia.text_of_isEmpty empty, List.map_nil, String.join_nil]
  next => rw [List.map_singleton, String.join_cons, String.join_nil, String.append_empty]

/-- The text of a tree is that of its leaves. -/
theorem join_leavesBehind {node : Node} (regular : node.Everywhere Regular) (fronts : List Trivia) :
    String.join ((node.leavesBehind fronts).map Leaf.written) =
      String.join (fronts.map Trivia.text) ++ node.written := by
  induction node using Node.induction generalizing fronts with
  | step node induction =>
      have trailing := regular.here.trailing
      have below : ∀ child ∈ node.children, child.Everywhere Regular := fun _ => regular.child
      rcases node with ⟨head, children⟩
      simp only at trailing below
      rw [written, trailing, Trivia.text_empty, String.append_empty]
      cases children with
      | nil =>
          rw [leavesBehind, List.isEmpty_nil, if_pos rfl, List.map_singleton, String.join_cons,
            String.join_nil, String.append_empty, Leaf.written, List.map_append, String.join_append,
            join_ownFront, writtenOfAll, String.append_empty, String.append_assoc]
      | cons first rest =>
          rw [List.forall_mem_cons] at induction below
          have noText : head.text = none := regular.here.noText (List.cons_ne_nil first rest)
          have behind : String.join ((rest.flatMap leaves).map Leaf.written) =
              writtenOfAll rest := by
            have each := induction.2
            have regularEach := below.2
            clear induction below regular
            induction rest with
            | nil => rfl
            | cons next rest later =>
                rw [List.forall_mem_cons] at each regularEach
                rw [List.flatMap_cons, List.map_append, String.join_append, leaves,
                  each.1 regularEach.1, later each.2 regularEach.2, writtenOfAll]
                rfl
          rw [leavesBehind_cons, List.map_append, String.join_append, behind, induction.1 below.1,
            List.map_append, String.join_append, join_ownFront, noText, writtenOfAll]
          simp only [Option.getD_none, String.append_empty, String.append_assoc]

theorem written_eq_join_leaves {node : Node} (regular : node.Everywhere Regular) :
    node.written = String.join (node.leaves.map Leaf.written) := by
  rw [leaves, join_leavesBehind regular, List.map_nil, String.join_nil, String.empty_append]

/-! ## Trees with related heads -/

mutual

/-- The same nodes, each with a head that is related to the one it had. -/
def Alike (related : NodeHead → NodeHead → Prop) : Node → Node → Prop
  | ⟨head, children⟩, ⟨other, others⟩ => related head other ∧ AllAlike related children others

def AllAlike (related : NodeHead → NodeHead → Prop) : List Node → List Node → Prop
  | [], [] => True
  | node :: rest, other :: others => Alike related node other ∧ AllAlike related rest others
  | _, _ => False

end

variable {related : NodeHead → NodeHead → Prop}

theorem allAlike_iff {nodes others : List Node} :
    AllAlike related nodes others ↔ List.Forall₂ (Alike related) nodes others := by
  induction nodes generalizing others with
  | nil => cases others <;> simp [AllAlike]
  | cons node rest induction => cases others <;> simp [AllAlike, induction]

theorem alike_iff {node other : Node} : node.Alike related other ↔
    related node.toNodeHead other.toNodeHead ∧
      List.Forall₂ (Alike related) node.children other.children := by
  cases node
  cases other
  rw [Alike, allAlike_iff]

theorem Alike.refl (refl : ∀ head, related head head) (node : Node) : node.Alike related node := by
  induction node using Node.induction with
  | step node induction => exact alike_iff.2 ⟨refl _, List.forall₂_same.2 induction⟩

mutual

theorem Alike.trans (trans : ∀ {first second third}, related first second → related second third →
    related first third) : ∀ {first second third : Node}, first.Alike related second →
      second.Alike related third → first.Alike related third
  | ⟨_, _⟩, ⟨_, _⟩, ⟨_, _⟩, ⟨here, below⟩, ⟨next, belowNext⟩ =>
      ⟨trans here next, AllAlike.trans trans below belowNext⟩

theorem AllAlike.trans
    (trans : ∀ {first second third}, related first second → related second third →
    related first third) : ∀ {first second third : List Node}, AllAlike related first second →
      AllAlike related second third → AllAlike related first third
  | [], [], [], _, _ => trivial
  | _ :: _, _ :: _, _ :: _, ⟨here, rest⟩, ⟨next, restNext⟩ =>
      ⟨Alike.trans trans here next, AllAlike.trans trans rest restNext⟩

end

mutual

theorem Alike.mapHeads_eq {change : NodeHead → NodeHead}
    (keeps : ∀ {head other}, related head other → change other = change head) :
    ∀ {node other : Node}, node.Alike related other → other.mapHeads change = node.mapHeads change
  | ⟨_, _⟩, ⟨_, _⟩, ⟨here, below⟩ => by
      rw [mapHeads, mapHeads, keeps here, AllAlike.mapHeads_eq keeps below]

theorem AllAlike.mapHeads_eq {change : NodeHead → NodeHead}
    (keeps : ∀ {head other}, related head other → change other = change head) :
    ∀ {nodes others : List Node}, AllAlike related nodes others →
      mapHeadsOfAll change others = mapHeadsOfAll change nodes
  | [], [], _ => rfl
  | _ :: _, _ :: _, ⟨first, rest⟩ => by
      rw [mapHeadsOfAll, mapHeadsOfAll, Alike.mapHeads_eq keeps first,
        AllAlike.mapHeads_eq keeps rest]

end

theorem alike_mapHeads {change : NodeHead → NodeHead} (relates : ∀ head, related head (change head))
    (node : Node) : node.Alike related (node.mapHeads change) := by
  induction node using Node.induction with
  | step node induction =>
      refine alike_iff.2 ⟨?_, ?_⟩
      · rw [toNodeHead_mapHeads]
        exact relates _
      · rw [children_mapHeads, List.forall₂_map_right_iff]
        exact List.forall₂_same.2 induction

theorem Alike.everywhere {property : Node → Prop}
    (keeps : ∀ {node other : Node}, node.Alike related other → property node → property other)
    {node other : Node} (alike : node.Alike related other) (holds : node.Everywhere property) :
    other.Everywhere property := by
  induction other using Node.induction generalizing node with
  | step other induction =>
      refine everywhere_iff.2 ⟨keeps alike holds.here, ?_⟩
      have below : ∀ child ∈ node.children, child.Everywhere property := fun _ => holds.child
      have children := (alike_iff.1 alike).2
      generalize node.children = nodes at children below
      generalize other.children = others at children induction
      clear alike holds
      induction children with
      | nil => exact nofun
      | cons first _ rest =>
          rw [List.forall_mem_cons] at below induction ⊢
          exact ⟨induction.1 first below.1, rest below.2 induction.2⟩

/-- How leaves are related when the heads of nodes are. -/
structure LeavesFollow (related : NodeHead → NodeHead → Prop) (front : Trivia → Trivia → Prop)
    (leaf : Leaf → Leaf → Prop) : Prop where
  own : ∀ {head other : NodeHead}, related head other →
    List.Forall₂ front (ownFront head) (ownFront other)
  each : ∀ {head other : NodeHead} {fronts others : List Trivia}, related head other →
    List.Forall₂ front fronts others →
    leaf ⟨fronts, head.kind, head.text⟩ ⟨others, other.kind, other.text⟩

mutual

theorem Alike.leavesBehind {front : Trivia → Trivia → Prop} {leaf : Leaf → Leaf → Prop}
    (follow : LeavesFollow related front leaf) {fronts others : List Trivia}
    (before : List.Forall₂ front fronts others) :
    ∀ {node other : Node}, node.Alike related other →
      List.Forall₂ leaf (node.leavesBehind fronts) (other.leavesBehind others)
  | ⟨_, []⟩, ⟨_, []⟩, ⟨here, _⟩ =>
      .cons (follow.each here (List.rel_append before (follow.own here))) .nil
  | ⟨_, _ :: _⟩, ⟨_, _ :: _⟩, ⟨here, below⟩ => by
      rw [Node.leavesBehind, Node.leavesBehind, List.isEmpty_cons, List.isEmpty_cons,
        if_neg Bool.false_ne_true, if_neg Bool.false_ne_true]
      exact AllAlike.leavesOfAll follow (List.rel_append before (follow.own here)) below

theorem AllAlike.leavesOfAll {front : Trivia → Trivia → Prop} {leaf : Leaf → Leaf → Prop}
    (follow : LeavesFollow related front leaf) {fronts others : List Trivia}
    (before : List.Forall₂ front fronts others) :
    ∀ {nodes news : List Node}, AllAlike related nodes news →
      List.Forall₂ leaf (leavesOfAll fronts nodes) (leavesOfAll others news)
  | [], [], _ => .nil
  | _ :: _, _ :: _, ⟨first, rest⟩ =>
      List.rel_append (Alike.leavesBehind follow before first)
        (AllAlike.leavesOfAll follow .nil rest)

end

/-! ## Other line breaks -/

/-- The head with other line breaks in front of the node. -/
structure RebrokenHead (old new : NodeHead) : Prop where
  rest : ({ new with leading := none, origin := none } : NodeHead) =
    { old with leading := none, origin := none }
  leading : Option.Rel Trivia.Rebroken old.leading new.leading

namespace RebrokenHead

theorem refl (head : NodeHead) : RebrokenHead head head := by
  refine ⟨rfl, ?_⟩
  cases head.leading with
  | none => exact .none
  | some leading => exact .some (.refl leading)

theorem withoutOrigin (head : NodeHead) : RebrokenHead head { head with origin := none } :=
  ⟨rfl, (refl head).leading⟩

theorem trans {first second third : NodeHead} (here : RebrokenHead first second)
    (next : RebrokenHead second third) : RebrokenHead first third := by
  refine ⟨next.rest.trans here.rest, ?_⟩
  have before := here.leading
  have after := next.leading
  generalize first.leading = front at before ⊢
  generalize second.leading = between at before after
  generalize third.leading = last at after ⊢
  cases before with
  | none => exact after
  | some here =>
      cases after with
      | some next => exact .some (here.trans next)

variable {old new : NodeHead} (rebroken : RebrokenHead old new)

include rebroken

theorem kind : new.kind = old.kind := (NodeHead.mk.inj rebroken.rest).2.1

theorem text : new.text = old.text := (NodeHead.mk.inj rebroken.rest).2.2.2.1

theorem leadingOrEmpty :
    (old.leading.getD .empty).Rebroken (new.leading.getD .empty) := by
  have leading := rebroken.leading
  generalize old.leading = before at leading
  generalize new.leading = after at leading
  cases leading with
  | none => exact .refl _
  | some leading => exact leading

theorem ownFront : List.Forall₂ Trivia.Rebroken (ownFront old) (ownFront new) := by
  rw [ownFront_eq, ownFront_eq, rebroken.leadingOrEmpty.isEmpty]
  split
  · exact .nil
  · exact .cons rebroken.leadingOrEmpty .nil

end RebrokenHead

structure Leaf.Rebroken (old new : Leaf) : Prop where
  fronts : List.Forall₂ Trivia.Rebroken old.fronts new.fronts
  kind : new.kind = old.kind
  text : new.text = old.text

variable {node other : Node} (alike : node.Alike RebrokenHead other)

include alike

theorem leaves_rebroken : List.Forall₂ Leaf.Rebroken node.leaves other.leaves :=
  alike.leavesBehind ⟨RebrokenHead.ownFront, fun here before => ⟨before, here.kind, here.text⟩⟩ .nil

theorem bare_rebroken : other.bare = node.bare :=
  alike.mapHeads_eq fun {head other} related => by
    have heads := congrArg bareHead related.rest
    exact heads

theorem everywhere_formatted_rebroken (formatted : node.Everywhere Formatted) :
    other.Everywhere Formatted := by
  refine alike.everywhere (fun {node other} alike formatted => ?_) formatted
  have leading := (alike_iff.1 alike).1.leading
  rw [Formatted] at formatted ⊢
  generalize node.leading = before at leading formatted
  generalize other.leading = after at leading
  cases leading with
  | none => exact formatted
  | some _ => rfl

theorem everywhere_lifted_rebroken (lifted : node.Everywhere Lifted) :
    other.Everywhere Lifted := by
  refine alike.everywhere (fun {node other} alike lifted => ?_) lifted
  have children := (alike_iff.1 alike).2
  rw [Lifted] at lifted ⊢
  generalize node.children = nodes at children lifted
  generalize other.children = others at children
  cases children with
  | nil => exact lifted
  | cons first _ =>
      intro child member
      rw [← Option.some.inj member, hasLeading, leadingOrEmpty,
        (alike_iff.1 first).1.leadingOrEmpty.isEmpty]
      exact lifted _ rfl

theorem content_hoist_rebroken (formatted : node.Everywhere Formatted)
    (lifted : node.Everywhere Lifted) (single : ∀ leaf ∈ node.leaves, leaf.fronts.length ≤ 1) :
    other.hoist.content = other.content := by
  have otherFormatted := everywhere_formatted_rebroken alike formatted
  have otherSingle : ∀ leaf ∈ other.leaves, leaf.fronts.length ≤ 1 := by
    have leaves := leaves_rebroken alike
    generalize node.leaves = olds at leaves single
    generalize other.leaves = news at leaves
    induction leaves with
    | nil => exact nofun
    | cons first _ rest =>
        rw [List.forall_mem_cons] at single ⊢
        exact ⟨first.fronts.length_eq ▸ single.1, rest single.2⟩
  exact content_hoist_of_lifted otherFormatted (everywhere_lifted_rebroken alike lifted) otherSingle

end Node

end Verbatim
