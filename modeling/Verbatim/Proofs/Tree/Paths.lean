import Verbatim.Proofs.Tree.Lifting
import Verbatim.Proofs.Tree.Provenance

/-! Nodes at paths. Where the node at a path is exchanged for another one, everything that stands
around it stays as it was: the leaves in front of it and behind it, and the text. -/

namespace Verbatim.Node

variable {node inner other : Node} {place : Nat} {path more : List Nat}

/-! ## Down a path -/

theorem exists_child_of_descendant? (found : node.descendant? (place :: path) = some inner) :
    ∃ before child behind, node.children = before ++ child :: behind ∧ before.length = place ∧
      child.descendant? path = some inner := by
  rcases Option.bind_eq_some_iff.1 found with ⟨child, isChild, below⟩
  rcases List.getElem?_eq_some_iff.1 isChild with ⟨inside, rfl⟩
  exact ⟨_, _, _, (List.take_append_drop place node.children).symm.trans
    (by rw [List.drop_eq_getElem_cons inside]), List.length_take_of_le (Nat.le_of_lt inside), below⟩

theorem replaceAt_of_children {before behind : List Node} {child : Node}
    (children : node.children = before ++ child :: behind) :
    node.replaceAt other (before.length :: path) =
      node.withChildren (before ++ child.replaceAt other path :: behind) := by
  rw [replaceAt, children, List.getElem?_append_right (Nat.le_refl _), Nat.sub_self]
  simp

theorem descendant?_append (node : Node) (path more : List Nat) :
    node.descendant? (path ++ more) = (node.descendant? path).bind (·.descendant? more) := by
  induction path generalizing node with
  | nil => rfl
  | cons place path induction =>
      rw [List.cons_append, descendant?, descendant?, Option.bind_assoc]
      exact Option.bind_congr fun child _ => induction child

theorem replaceAt_append (found : node.descendant? path = some inner) :
    node.replaceAt other (path ++ more) = node.replaceAt (inner.replaceAt other more) path := by
  induction path generalizing node with
  | nil => cases found; rfl
  | cons place path induction =>
      rcases exists_child_of_descendant? found with ⟨before, child, behind, children, rfl, below⟩
      rw [List.cons_append, replaceAt_of_children children, replaceAt_of_children children,
        induction below]

theorem descendant?_mapHeads {change : NodeHead → NodeHead} (node : Node) (path : List Nat) :
    (node.mapHeads change).descendant? path = (node.descendant? path).map (mapHeads change) := by
  induction path generalizing node with
  | nil => rfl
  | cons place path induction =>
      rw [descendant?, descendant?, children_mapHeads, List.getElem?_map, Option.bind_map,
        Option.map_bind]
      exact Option.bind_congr fun child _ => induction child

theorem mapHeads_replaceAt {change : NodeHead → NodeHead}
    (blind : ∀ head, change { head with origin := none } = { change head with origin := none })
    (node other : Node) (path : List Nat) :
    (node.replaceAt other path).mapHeads change =
      (node.mapHeads change).replaceAt (other.mapHeads change) path := by
  induction path generalizing node with
  | nil => rfl
  | cons place path induction =>
      rw [replaceAt, replaceAt, children_mapHeads, List.getElem?_map]
      cases node.children[place]? with
      | none => rfl
      | some child =>
          rcases node with ⟨head, children⟩
          simp only [Option.map_some, withChildren]
          rw [mapHeads_mk, List.map_set, induction, blind, mapHeads_mk]

theorem content_replaceAt (node other : Node) (path : List Nat) :
    (node.replaceAt other path).content = node.content.replaceAt other.content path := by
  rw [content_eq_mapHeads, content_eq_mapHeads, content_eq_mapHeads]
  exact mapHeads_replaceAt (fun _ => rfl) node other path

theorem bare_replaceAt (node other : Node) (path : List Nat) :
    (node.replaceAt other path).bare = node.bare.replaceAt other.bare path :=
  mapHeads_replaceAt (fun _ => rfl) node other path

theorem mem_preorder_of_descendant? (found : node.descendant? path = some inner) :
    inner ∈ node.preorder := by
  induction path generalizing node with
  | nil => exact mem_preorder.2 (.inl (Option.some.inj found).symm)
  | cons place path induction =>
      rcases exists_child_of_descendant? found with ⟨before, child, behind, children, -, below⟩
      exact mem_preorder.2 (.inr ⟨child, by simp [children], induction below⟩)

theorem Everywhere.replaceAt {property : Node → Prop} (holds : node.Everywhere property)
    (stays : ∀ (part : Node) (children : List Node), property part →
      property (part.withChildren children))
    (otherHolds : other.Everywhere property) (path : List Nat) :
    (node.replaceAt other path).Everywhere property := by
  induction path generalizing node with
  | nil => exact otherHolds
  | cons place path induction =>
      rw [Node.replaceAt]
      cases isChild : node.children[place]? with
      | none => exact holds
      | some child =>
          refine everywhere_iff.2 ⟨stays _ _ holds.here, fun below member => ?_⟩
          rcases List.mem_or_eq_of_mem_set member with member | rfl
          · exact holds.child member
          · exact induction (holds.child (List.mem_of_getElem? isChild))

theorem formatted_replaceAt (formatted : node.Formatted) (otherFormatted : other.Formatted)
    (path : List Nat) : (node.replaceAt other path).Formatted := by
  cases path with
  | nil => exact otherFormatted
  | cons place path =>
      rw [replaceAt]
      split
      · exact formatted
      · exact formatted

/-! ## What stands around -/

theorem leavesBehind_withChildren (node first : Node) (rest : List Node) (fronts : List Trivia) :
    (node.withChildren (first :: rest)).leavesBehind fronts =
      first.leavesBehind (fronts ++ ownFront node.toNodeHead) ++ rest.flatMap leaves :=
  leavesBehind_cons ..

theorem exists_leaves_around (found : node.descendant? path = some inner) (fronts : List Trivia) :
    ∃ before inFront behind,
      node.leavesBehind fronts = before ++ (inner.leavesBehind inFront ++ behind) ∧
      ∀ other, (node.replaceAt other path).leavesBehind fronts =
        before ++ (other.leavesBehind inFront ++ behind) := by
  induction path generalizing node fronts with
  | nil =>
      cases found
      exact ⟨[], fronts, [], by simp, fun other => by simp [replaceAt]⟩
  | cons place path induction =>
      rcases exists_child_of_descendant? found with ⟨before, child, behind, children, rfl, below⟩
      rcases node with ⟨head, nodes⟩
      obtain rfl : nodes = before ++ child :: behind := children
      cases before with
      | nil =>
          rcases induction below (fronts ++ ownFront head) with ⟨front, inFront, back, own, around⟩
          refine ⟨front, inFront, back ++ behind.flatMap leaves, ?_, fun other => ?_⟩
          · rw [List.nil_append, leavesBehind_cons, own, List.append_assoc, List.append_assoc]
          · rw [replaceAt_of_children rfl]
            refine (leavesBehind_withChildren _ (child.replaceAt other path) behind fronts).trans ?_
            rw [around, List.append_assoc, List.append_assoc]
      | cons first rest =>
          rcases induction below [] with ⟨front, inFront, back, own, around⟩
          refine ⟨first.leavesBehind (fronts ++ ownFront head) ++ (rest.flatMap leaves ++ front),
            inFront, back ++ behind.flatMap leaves, ?_, fun other => ?_⟩
          · rw [List.cons_append, leavesBehind_cons, List.flatMap_append, List.flatMap_cons, leaves,
              own]
            simp only [List.append_assoc]
          · rw [replaceAt_of_children rfl]
            refine (leavesBehind_withChildren _ first (rest ++ child.replaceAt other path :: behind)
              fronts).trans ?_
            rw [List.flatMap_append, List.flatMap_cons, leaves, around]
            simp only [List.append_assoc]

theorem SealedInTurn.split {source : String} {start stop : Nat} {nodes others : List Node}
    (lie : SealedInTurn source start stop (nodes ++ others)) :
    ∃ middle, SealedInTurn source middle stop others ∧
      middle = start + (writtenOfAll nodes).utf8ByteSize := by
  induction nodes generalizing start with
  | nil => exact ⟨start, lie, by simp [writtenOfAll]⟩
  | cons node nodes induction =>
      rcases lie with ⟨next, here, there⟩
      rcases induction there with ⟨middle, behind, size⟩
      rcases here.standsAt with ⟨-, -, -, -, stops⟩
      exact ⟨middle, behind,
        by rw [size, stops, writtenOfAll, String.utf8ByteSize_append, Nat.add_assoc]⟩

/-- The last children take up what the formatting and the text of their parent and the first
children leave of the text. -/
theorem Sealed.exists_children {source : String} {start stop : Nat} {head : NodeHead}
    {before behind : List Node} (lies : Sealed source start stop ⟨head, before ++ behind⟩) :
    ∃ leading begins ends, head.leading = some leading ∧ SealedInTurn source begins ends behind ∧
      begins = start + (leading.text ++ head.text.getD "" ++ writtenOfAll before).utf8ByteSize := by
  rcases lies with ⟨leading, _, _, inside, last, isLeading, -, -, -, ⟨-, -, -, -, stops⟩, inTurn, -⟩
  rcases inTurn.split with ⟨middle, behindLies, size⟩
  refine ⟨leading, middle, last, isLeading, behindLies, ?_⟩
  rw [size, stops, Nat.add_assoc, ← String.utf8ByteSize_append]

theorem Sealed.exists_text_around {source : String} {start stop : Nat}
    (lies : node.Sealed source start stop) (found : node.descendant? path = some inner) :
    ∃ before behind begins ends, inner.Sealed source begins ends ∧
      begins = start + before.utf8ByteSize ∧ node.written = before ++ (inner.written ++ behind) ∧
      ∀ other, (node.replaceAt other path).written = before ++ (other.written ++ behind) := by
  induction path generalizing node start stop with
  | nil =>
      cases found
      exact ⟨"", "", start, stop, lies, by simp, by simp, fun other => by simp [replaceAt]⟩
  | cons place path induction =>
      rcases exists_child_of_descendant? found with ⟨before, child, behind, children, rfl, below⟩
      rcases node with ⟨head, nodes⟩
      obtain rfl : nodes = before ++ child :: behind := children
      rcases lies.exists_children with ⟨leading, _, _, isLeading, ⟨next, childLies, -⟩, rfl⟩
      rcases induction childLies below with ⟨front, back, begins, ends, innerLies, rfl, own, around⟩
      refine ⟨leading.text ++ head.text.getD "" ++ writtenOfAll before ++ front,
        back ++ writtenOfAll behind ++ head.trailing.text, _, ends, innerLies, ?_, ?_,
        fun other => ?_⟩
      · rw [Nat.add_assoc, ← String.utf8ByteSize_append]
      · rw [written, isLeading, writtenOfAll_append, writtenOfAll, own]
        simp only [Option.getD_some, String.append_assoc]
      · rw [replaceAt_of_children rfl, withChildren, written, isLeading, writtenOfAll_append,
          writtenOfAll, around]
        simp only [Option.getD_some, String.append_assoc]

end Verbatim.Node
