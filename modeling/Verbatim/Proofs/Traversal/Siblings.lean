import Verbatim.Proofs.Traversal.Courses

/-! What hooks see of the siblings of a node. The parent on the trail is brought up to date only
when a child has changed, and hooks may have put another parent in place before its children are
gone through; still its children are always what stands for the earlier ones by now, and then
the others as they were. -/

namespace Verbatim

namespace Trail

variable {node : Node} {before behind : List Node}

theorem childBefore?_of_nodup
    (distinct : ((before ++ node :: behind).map (·.id)).Nodup) :
    childBefore? node.id (before ++ node :: behind) = before.getLast? := by
  induction before with
  | nil => cases behind <;> simp [childBefore?]
  | cons first before induction =>
      rw [List.cons_append, List.map_cons, List.nodup_cons] at distinct
      rcases distinct with ⟨fresh, distinct⟩
      have other : first.id ≠ node.id := by
        intro same
        apply fresh
        rw [same]
        exact List.mem_map_of_mem (List.mem_append_right before List.mem_cons_self)
      cases before with
      | nil => simp [childBefore?, other]
      | cons second before =>
          have further : second.id ≠ node.id := by
            intro same
            rw [List.cons_append, List.map_cons, List.nodup_cons] at distinct
            apply distinct.1
            rw [same]
            exact List.mem_map_of_mem (List.mem_append_right before List.mem_cons_self)
          rw [List.cons_append, List.cons_append, childBefore?, if_neg other, if_neg further,
            List.getLast?_cons_cons]
          exact induction distinct

theorem previousSibling?_of_nodup {parent : Node} {above : List Node}
    (children : parent.children = before ++ node :: behind)
    (distinct : (parent.children.map (·.id)).Nodup) :
    (Trail.mk node (parent :: above)).previousSibling? = before.getLast? := by
  rw [children] at distinct
  show childBefore? node.id parent.children = before.getLast?
  rw [children]
  exact childBefore?_of_nodup distinct

end Trail

namespace Course

/-- The first look at the child with the given number sees its parent with what has become of the
earlier children, and itself. -/
structure SeesSiblings (place : Course) (number : Nat) (call visit : Call Visit)
    (parent : Node) (transforms : List Transform) : Prop where
  looked : place.visit = some visit
  entered : place.entered? = some parent
  child : parent.children[number]? = some call.node
  earlier : outcomes? (place.children.take number) = some transforms
  trail : call.trail = ⟨call.node, parent.after transforms :: visit.trail.above⟩
  children : (parent.after transforms).children =
    parent.produced transforms ++ parent.children.drop number
  previous : ((parent.after transforms).children.map (·.id)).Nodup →
    call.trail.previousSibling? = (parent.produced transforms).getLast?

theorem Orderly.seesSiblings {place child : Course} {number : Nat} {call : Call Visit}
    (orderly : place.Orderly) (childOrderly : child.Orderly)
    (isChild : place.children[number]? = some child) (visited : child.visit = some call) :
    ∃ visit parent transforms, place.SeesSiblings number call visit parent transforms := by
  cases entered : place.entered? with
  | none =>
      rw [(orderly.ends entered).1] at isChild
      cases isChild
  | some parent =>
      cases looked : place.visit with
      | none =>
          rw [entered?, looked] at entered
          cases entered
      | some visit =>
          rcases (orderly.children visit parent looked entered).turn isChild with
            ⟨transforms, earlier, turn⟩
          rw [List.nil_append] at turn
          have atNode : call.node = child.node := (childOrderly.visit call visited).1
          have count : transforms.length = number := by
            rw [length_of_outcomes? earlier, List.length_take]
            have inside := (List.getElem?_eq_some_iff.1 isChild).1
            omega
          have node : parent.children[number]? = some call.node := by
            rw [← count, turn.node, atNode]
          have trail : call.trail = ⟨call.node, parent.after transforms :: visit.trail.above⟩ := by
            rw [turn.trail call visited, atNode]
          have children : (parent.after transforms).children =
              parent.produced transforms ++ parent.children.drop number := by
            rw [Node.children_after, Node.childrenAfter, count]
          refine ⟨visit, parent, transforms, looked, entered, node, earlier, trail, children, ?_⟩
          intro distinct
          rcases List.getElem?_eq_some_iff.1 node with ⟨inside, sameNode⟩
          have next : parent.children.drop number =
              call.node :: parent.children.drop (number + 1) := by
            rw [List.drop_eq_getElem_cons inside, sameNode]
          rw [trail]
          exact Trail.previousSibling?_of_nodup (by rw [children, next]) distinct

end Course

/-- In every traversal, hooks see the node that they are called for, and around it what has become
of the tree so far. -/
theorem hooks_see_siblings (visitor : Visitor) (limits : WalkLimits) (root : Node)
    (session : Session) :
    ∃ course : Course, course.Records visitor limits root session ∧
      ∀ place ∈ course.places,
        (∀ call, place.visit = some call → call.trail.here = call.node) ∧
        (∀ call, place.leave = some call → call.trail.here = call.node) ∧
        ∀ number child call, place.children[number]? = some child → child.visit = some call →
          ∃ visit parent transforms, place.SeesSiblings number call visit parent transforms := by
  rcases Course.exists_records visitor limits root session with ⟨course, records⟩
  refine ⟨course, records, fun place member => ?_⟩
  have orderly := records.orderly place member
  refine ⟨?_, ?_, ?_⟩
  · intro call visited
    rcases orderly.visit call visited with ⟨atNode, here⟩
    rw [here, atNode]
  · intro call left
    rcases orderly.leave call left with ⟨_, _, _, _, _, _, _, trail, _⟩
    rw [trail]
  · intro number child call isChild visited
    have childOrderly := records.orderly child (Course.child_mem_places member isChild)
    exact orderly.seesSiblings childOrderly isChild visited

end Verbatim
