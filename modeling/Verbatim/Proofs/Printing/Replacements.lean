import Verbatim.Tree.Node

/-! Nodes that are to be put in the place of others, which are found by their paths. What is to be
done in a tree is split into what is to be done in each child. -/

namespace Verbatim

/-! ## Replacements -/

/-- The nodes to stand in the place of the node at a path. -/
structure Replacement where
  path : List Nat
  nodes : List Node

namespace Replacement

/-- The replacement as the first of some siblings sees it. -/
def inFirst : Replacement → Option Replacement
  | ⟨0 :: path, nodes⟩ => some ⟨path, nodes⟩
  | _ => none

/-- The replacement as the siblings behind the first see it. -/
def behindFirst : Replacement → Option Replacement
  | ⟨(place + 1) :: path, nodes⟩ => some ⟨place :: path, nodes⟩
  | _ => none

/-- Neither path leads through the other, and the first one leads to the left of the second. -/
def Before : List Nat → List Nat → Prop
  | place :: path, other :: otherPath => place < other ∨ place = other ∧ Before path otherPath
  | _, _ => False

theorem before_or_before {path other : List Nat} (notIn : ¬ path <+: other)
    (notAround : ¬ other <+: path) : Before path other ∨ Before other path := by
  induction path generalizing other with
  | nil => exact absurd List.nil_prefix notIn
  | cons place path induction =>
      cases other with
      | nil => exact absurd List.nil_prefix notAround
      | cons otherPlace other =>
          rcases Nat.lt_trichotomy place otherPlace with less | rfl | greater
          · exact .inl (.inl less)
          · rw [List.cons_prefix_cons] at notIn notAround
            rcases induction (fun inside => notIn ⟨rfl, inside⟩)
              (fun around => notAround ⟨rfl, around⟩) with first | second
            · exact .inl (.inr ⟨rfl, first⟩)
            · exact .inr (.inr ⟨rfl, second⟩)
          · exact .inr (.inl greater)

instance before_decidable : (path other : List Nat) → Decidable (Before path other)
  | [], _ => .isFalse fun impossible => impossible
  | _ :: _, [] => .isFalse fun impossible => impossible
  | place :: path, otherPlace :: other =>
    have := before_decidable path other
    inferInstanceAs (Decidable (place < otherPlace ∨ place = otherPlace ∧ Before path other))

theorem Before.trans {first second third : List Nat} (before : Before first second)
    (next : Before second third) : Before first third := by
  induction first generalizing second third with
  | nil => exact before.elim
  | cons place path induction =>
      cases second with
      | nil => exact before.elim
      | cons secondPlace second =>
          cases third with
          | nil => exact next.elim
          | cons thirdPlace third =>
              rcases before with less | ⟨rfl, inside⟩
              · rcases next with more | ⟨rfl, -⟩
                · exact .inl (by omega)
                · exact .inl less
              · rcases next with more | ⟨rfl, further⟩
                · exact .inl more
                · exact .inr ⟨rfl, induction inside further⟩

theorem Before.not_prefix {path other : List Nat} (before : Before path other) :
    ¬ path <+: other ∧ ¬ other <+: path := by
  induction path generalizing other with
  | nil => exact before.elim
  | cons place path induction =>
      cases other with
      | nil => exact before.elim
      | cons otherPlace other =>
          rw [List.cons_prefix_cons, List.cons_prefix_cons]
          rcases before with less | ⟨rfl, inside⟩
          · constructor
            · intro both
              omega
            · intro both
              omega
          · exact ⟨fun both => (induction inside).1 both.2,
              fun both => (induction inside).2 both.2⟩

/-- No replaced node contains another one. -/
def Apart (replacements : List Replacement) : Prop :=
  replacements.Pairwise fun first second =>
    ¬ first.path <+: second.path ∧ ¬ second.path <+: first.path

/-- The replacements are for different places and are given from left to right. -/
def Ordered (replacements : List Replacement) : Prop :=
  replacements.Pairwise fun first second => Before first.path second.path

def fromFirst (replacement : Replacement) : Replacement :=
  ⟨0 :: replacement.path, replacement.nodes⟩

def fromBehind : Replacement → Replacement
  | ⟨place :: path, nodes⟩ => ⟨(place + 1) :: path, nodes⟩
  | ⟨[], nodes⟩ => ⟨[], nodes⟩

theorem inFirst_eq_some_iff {replacement inside : Replacement} :
    replacement.inFirst = some inside ↔ replacement = inside.fromFirst := by
  rcases replacement with ⟨_ | ⟨_ | place, path⟩, nodes⟩ <;> rcases inside with ⟨other, others⟩ <;>
    simp [inFirst, fromFirst]

theorem behindFirst_eq_some_iff {replacement behind : Replacement} :
    replacement.behindFirst = some behind ↔
      replacement = behind.fromBehind ∧ behind.path ≠ [] := by
  rcases replacement with ⟨_ | ⟨_ | place, path⟩, nodes⟩ <;>
    rcases behind with ⟨_ | ⟨other, others⟩, left⟩ <;> simp [behindFirst, fromBehind]

theorem forall_inFirst {property : Replacement → Prop} {replacements : List Replacement}
    (holds : ∀ replacement ∈ replacements, property replacement) :
    ∀ inside ∈ replacements.filterMap inFirst, property inside.fromFirst := by
  intro inside member
  rcases List.mem_filterMap.1 member with ⟨given, givenMember, equal⟩
  rw [← inFirst_eq_some_iff.1 equal]
  exact holds given givenMember

theorem forall_behindFirst {property : Replacement → Prop} {replacements : List Replacement}
    (holds : ∀ replacement ∈ replacements, property replacement) :
    ∀ behind ∈ replacements.filterMap behindFirst, property behind.fromBehind := by
  intro behind member
  rcases List.mem_filterMap.1 member with ⟨given, givenMember, equal⟩
  rw [← (behindFirst_eq_some_iff.1 equal).1]
  exact holds given givenMember

theorem nodes_fromBehind (replacement : Replacement) :
    replacement.fromBehind.nodes = replacement.nodes := by
  rcases replacement with ⟨_ | ⟨place, path⟩, nodes⟩ <;> rfl

namespace Ordered

variable {replacements : List Replacement}

theorem inFirst (ordered : Ordered replacements) :
    Ordered (replacements.filterMap Replacement.inFirst) := by
  rw [Ordered, List.pairwise_filterMap]
  apply ordered.imp
  intro _ _ before first firstEqual second secondEqual
  rw [inFirst_eq_some_iff] at firstEqual secondEqual
  rw [firstEqual, secondEqual] at before
  rcases before with impossible | ⟨-, before⟩
  · omega
  · exact before

theorem behindFirst (ordered : Ordered replacements) :
    Ordered (replacements.filterMap Replacement.behindFirst) := by
  rw [Ordered, List.pairwise_filterMap]
  apply ordered.imp
  intro _ _ before first firstEqual second secondEqual
  rw [behindFirst_eq_some_iff] at firstEqual secondEqual
  rw [firstEqual.1, secondEqual.1] at before
  rcases first with ⟨_ | ⟨place, path⟩, nodes⟩
  · exact absurd rfl firstEqual.2
  · rcases second with ⟨_ | ⟨other, otherPath⟩, others⟩
    · exact absurd rfl secondEqual.2
    · rcases before with less | ⟨same, before⟩
      · exact .inl (by omega)
      · exact .inr ⟨by omega, before⟩

theorem split (ordered : Ordered replacements)
    (below : ∀ replacement ∈ replacements, replacement.path ≠ []) :
    replacements = (replacements.filterMap Replacement.inFirst).map fromFirst ++
      (replacements.filterMap Replacement.behindFirst).map fromBehind := by
  induction replacements with
  | nil => rfl
  | cons first rest induction =>
      rcases List.pairwise_cons.1 ordered with ⟨before, orderedRest⟩
      have equal := induction orderedRest fun replacement member =>
        below replacement (List.mem_cons_of_mem _ member)
      rcases first with ⟨_ | ⟨_ | place, path⟩, nodes⟩
      · exact absurd rfl (below _ List.mem_cons_self)
      · rw [List.filterMap_cons_some (b := ⟨path, nodes⟩) (by rfl),
          List.filterMap_cons_none (by rfl), List.map_cons, List.cons_append, ← equal]
        rfl
      · -- nothing in the first sibling comes behind something in another one
        have absent : rest.filterMap Replacement.inFirst = [] := by
          rw [List.filterMap_eq_nil_iff]
          intro replacement member
          cases found : replacement.inFirst with
          | none => rfl
          | some inside =>
              have impossible := before replacement member
              rw [inFirst_eq_some_iff.1 found] at impossible
              rcases impossible with less | ⟨same, -⟩
              · omega
              · cases same
        rw [absent, List.map_nil, List.nil_append] at equal
        rw [List.filterMap_cons_none (by rfl), absent, List.map_nil, List.nil_append,
          List.filterMap_cons_some (b := ⟨place :: path, nodes⟩) (by rfl), List.map_cons, ← equal]
        rfl

end Ordered

theorem Ordered.apart {replacements : List Replacement} (ordered : Ordered replacements) :
    Apart replacements :=
  ordered.imp fun before => before.not_prefix

namespace Apart

variable {replacements : List Replacement}

theorem exists_ordered (apart : Apart replacements) :
    ∃ sorted, sorted.Perm replacements ∧ Ordered sorted := by
  induction replacements with
  | nil => exact ⟨[], .nil, .nil⟩
  | cons first rest induction =>
      rcases List.pairwise_cons.1 apart with ⟨apartFirst, apartRest⟩
      rcases induction apartRest with ⟨sorted, permutation, ordered⟩
      let left := fun other : Replacement => decide (Before other.path first.path)
      refine ⟨sorted.filter left ++ first :: sorted.filter fun other => !left other, ?_, ?_⟩
      · exact List.perm_middle.trans
          (.cons first ((List.filter_append_perm left sorted).trans permutation))
      · have after : ∀ other ∈ sorted.filter (fun other => !left other),
            Before first.path other.path := by
          intro other member
          rcases List.mem_filter.1 member with ⟨inSorted, notLeft⟩
          have both := apartFirst other (permutation.mem_iff.1 inSorted)
          rcases before_or_before both.1 both.2 with before | before
          · exact before
          · simp [left, before] at notLeft
        refine List.pairwise_append.2 ⟨ordered.filter _, List.pairwise_cons.2 ⟨after,
          ordered.filter _⟩, ?_⟩
        intro one inLeft other inRight
        have before : Before one.path first.path := by
          simpa [left] using (List.mem_filter.1 inLeft).2
        rcases List.mem_cons.1 inRight with rfl | inRight
        · exact before
        · exact before.trans (after other inRight)

theorem inFirst (apart : Apart replacements) :
    Apart (replacements.filterMap Replacement.inFirst) := by
  rw [Apart, List.pairwise_filterMap]
  apply apart.imp
  intro _ _ both first firstEqual second secondEqual
  rw [inFirst_eq_some_iff] at firstEqual secondEqual
  rw [firstEqual, secondEqual] at both
  simpa [fromFirst, List.cons_prefix_cons] using both

theorem behindFirst (apart : Apart replacements) :
    Apart (replacements.filterMap Replacement.behindFirst) := by
  rw [Apart, List.pairwise_filterMap]
  apply apart.imp
  intro _ _ both first firstEqual second secondEqual
  rw [behindFirst_eq_some_iff] at firstEqual secondEqual
  rw [firstEqual.1, secondEqual.1] at both
  rcases first with ⟨_ | ⟨place, path⟩, nodes⟩
  · exact absurd rfl firstEqual.2
  · rcases second with ⟨_ | ⟨other, otherPath⟩, others⟩
    · exact absurd rfl secondEqual.2
    · simpa [fromBehind, List.cons_prefix_cons] using both

theorem eq_singleton (apart : Apart replacements) {replacement : Replacement}
    (member : replacement ∈ replacements) (whole : replacement.path = []) :
    replacements = [replacement] := by
  cases replacements with
  | nil => cases member
  | cons first rest =>
      rcases List.pairwise_cons.1 apart with ⟨both, -⟩
      rcases List.mem_cons.1 member with rfl | inRest
      · cases rest with
        | nil => rfl
        | cons second others =>
            have notPrefix := (both second List.mem_cons_self).1
            rw [whole] at notPrefix
            exact absurd List.nil_prefix notPrefix
      · have notPrefix := (both replacement inRest).2
        rw [whole] at notPrefix
        exact absurd List.nil_prefix notPrefix

end Apart

end Replacement

namespace Node

mutual

/-- The node with replacements made below it. Where there are none it stays the node it was. -/
def splice (replacements : List Replacement) : Node → Node
  | ⟨head, children⟩ =>
    if replacements.isEmpty then ⟨head, children⟩
    else (Node.mk head children).withChildren (spliceAll replacements children)

def spliceAll (replacements : List Replacement) : List Node → List Node
  | [] => []
  | node :: rest =>
    (match (replacements.filterMap Replacement.inFirst).find? (·.path.isEmpty) with
      | some replacement => replacement.nodes
      | none => [node.splice (replacements.filterMap Replacement.inFirst)]) ++
    spliceAll (replacements.filterMap Replacement.behindFirst) rest

end

mutual

theorem splice_perm : ∀ (node : Node) {replacements others : List Replacement},
    replacements.Perm others → Replacement.Apart replacements →
    node.splice replacements = node.splice others
  | ⟨head, children⟩, replacements, others, permutation, apart => by
      rw [splice, splice, spliceAll_perm children permutation apart]
      cases replacements with
      | nil => rw [permutation.nil_eq]
      | cons first rest =>
          cases others with
          | nil => cases permutation.eq_nil
          | cons => rfl

theorem spliceAll_perm : ∀ (nodes : List Node) {replacements others : List Replacement},
    replacements.Perm others → Replacement.Apart replacements →
    spliceAll replacements nodes = spliceAll others nodes
  | [], _, _, _, _ => rfl
  | node :: rest, replacements, others, permutation, apart => by
      have here := permutation.filterMap Replacement.inFirst
      rw [spliceAll, spliceAll, spliceAll_perm rest (permutation.filterMap _) apart.behindFirst,
        splice_perm node here apart.inFirst]
      cases whole : (replacements.filterMap Replacement.inFirst).find? (·.path.isEmpty) with
      | some replacement =>
          have empty : replacement.path = [] := by simpa using List.find?_some whole
          have single := apart.inFirst.eq_singleton (List.mem_of_find?_eq_some whole) empty
          rw [single] at here
          rw [← List.singleton_perm.1 here, List.find?_cons_of_pos (by rw [empty]; rfl)]
      | none =>
          have missing : (others.filterMap Replacement.inFirst).find? (·.path.isEmpty) = none := by
            rw [List.find?_eq_none] at whole ⊢
            exact fun replacement member => whole replacement (here.mem_iff.2 member)
          rw [missing]

end

end Node

end Verbatim
