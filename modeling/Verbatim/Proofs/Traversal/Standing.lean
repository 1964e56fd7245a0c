import Verbatim.Proofs.Traversal.Courses

/-! Where in the result of a traversal stands what has become of a node. A node is no longer at the
number it had when earlier siblings were removed or have become several nodes; and it is not in the
result at all if a hook of a node around it answers with other nodes afterwards. -/

namespace Verbatim

theorem Transform.node?_ofChange {node current : Node} {changed : Bool}
    (same : changed = false → current = node) :
    (Transform.ofChange changed current).node? node = some current := by
  cases changed with
  | true => rfl
  | false => exact congrArg some (same rfl).symm

theorem Transform.nodes_of_node? {node current : Node} {transform : Transform}
    (goesOn : transform.node? node = some current) : transform.nodes node = [current] := by
  cases transform with
  | keep =>
      cases goesOn
      rfl
  | replace other =>
      cases goesOn
      rfl
  | splice nodes => cases goesOn

namespace Course

/-- What stands for the node when its walk is over. -/
def stands (course : Course) : List Node :=
  match course.outcome? with
  | none => []
  | some transform => transform.nodes course.node

/-- The way down to what has become of the place at the end of a path. -/
def standing (course : Course) : List Nat → List Nat
  | [] => []
  | number :: path =>
    match course.children[number]? with
    | none => []
    | some child => ((course.children.take number).flatMap stands).length :: child.standing path

/-- The second look, if there is one, lets the node stand as its children left it. -/
def LetsStand (place : Course) : Prop :=
  ∀ call, place.leave = some call → (HookCall.leave call).Keeps

/-- So do the second looks at all nodes around the place at the end of a path. -/
def LetsStandAbove (course : Course) (path : List Nat) : Prop :=
  ∀ above number below place, path = above ++ number :: below → course.at? above = some place →
    place.LetsStand

variable {course place child : Course} {current : Node} {transforms : List Transform}

theorem LetsStandAbove.here {number : Nat} {path : List Nat}
    (lets : course.LetsStandAbove (number :: path)) : course.LetsStand :=
  lets [] number path course rfl rfl

theorem LetsStandAbove.below {number : Nat} {path : List Nat}
    (lets : course.LetsStandAbove (number :: path))
    (isChild : course.children[number]? = some child) :
    child.LetsStandAbove path := by
  intro above next below place split found
  apply lets (number :: above) next below place
  · rw [split, List.cons_append]
  · rw [at?, isChild]
    exact found

theorem entered?_eq_some :
    place.entered? = some current ↔
      ∃ call answer, place.visit = some call ∧ call.answer = .ok answer ∧ answer.control ≠ .stop ∧
        answer.transform.node? place.node = some current := by
  rw [entered?, goesOn?]
  cases place.visit with
  | none => simp
  | some call =>
      cases answered : call.answer with
      | error error => simp [answered, Except.toOption]
      | ok answer =>
          by_cases stops : answer.control = .stop <;> simp [answered, Except.toOption, stops]

theorem outcome?_eq_settle (place : Course) :
    place.outcome? = settle place.node place.visit (outcomes? place.children) place.leave := by
  cases place
  rw [outcome?]

theorem exists_outcomes {transform : Transform} (entered : place.entered? = some current)
    (settled : place.outcome? = some transform) :
    ∃ transforms, outcomes? place.children = some transforms := by
  rw [entered?] at entered
  rw [outcome?_eq_settle, settle, entered] at settled
  cases below : outcomes? place.children with
  | none =>
      rw [below] at settled
      cases answered : place.visit.bind (·.answer.toOption) <;> rw [answered] at settled <;>
        cases settled
  | some transforms => exact ⟨transforms, rfl⟩

theorem outcome?_of_letsStand {call : Call Visit} {answer : Visit}
    (entered : place.entered? = some current) (visited : place.visit = some call)
    (answered : call.answer = .ok answer) (settled : outcomes? place.children = some transforms)
    (lets : place.LetsStand) :
    place.outcome? = some (.ofChange (!answer.transform.isKeep || !transforms.all (·.isKeep))
      (current.after transforms)) := by
  rw [entered?, visited] at entered
  rw [outcome?_eq_settle, settle, visited, settled, entered, Option.bind_some, answered]
  cases left : place.leave with
  | none => rfl
  | some second =>
      have keeps : second.answer = .ok .keep := lets second left
      simp [keeps, Except.toOption, Transform.over]

theorem outcome?_node?_of_letsStand {transform : Transform}
    (entered : place.entered? = some current) (lets : place.LetsStand)
    (below : outcomes? place.children = some transforms)
    (settled : place.outcome? = some transform) :
    transform.node? place.node = some (current.after transforms) := by
  rcases entered?_eq_some.1 entered with ⟨call, answer, visited, answered, -, goesOn⟩
  rw [outcome?_of_letsStand entered visited answered below lets] at settled
  cases settled
  apply Transform.node?_ofChange
  intro unchanged
  rw [Bool.or_eq_false_iff, Bool.not_eq_false', Bool.not_eq_false'] at unchanged
  rw [Transform.eq_keep_of_isKeep unchanged.1] at goesOn
  rw [Node.after, if_pos unchanged.2]
  exact (Option.some.inj goesOn).symm

theorem InTurn.produced {parent : Node} {above : List Node} {earlier : List Transform}
    {courses : List Course} (inTurn : InTurn parent above earlier courses)
    (settled : outcomes? courses = some transforms) :
    parent.produced (earlier ++ transforms) =
      parent.produced earlier ++ courses.flatMap stands := by
  have step {earlier : List Transform} {child : Course} {transform : Transform}
      (turn : Turn parent above earlier child) (outcome : child.outcome? = some transform) :
      parent.produced (earlier ++ [transform]) = parent.produced earlier ++ child.stands := by
    rcases List.getElem?_eq_some_iff.1 turn.node with ⟨inside, atNode⟩
    rw [Node.produced_concat (List.drop_eq_getElem_cons inside), atNode, stands, outcome]
  induction inTurn generalizing transforms with
  | nil earlier =>
      cases settled
      simp
  | @last earlier child turn =>
      rcases outcomes?_cons_eq_some.1 settled with ⟨transform, others, outcome, later, rfl⟩
      cases later
      rw [step turn outcome, List.flatMap_singleton]
  | @cons earlier child transform rest turn outcome going inTurn induction =>
      rcases outcomes?_cons_eq_some.1 settled with ⟨other, others, same, later, rfl⟩
      cases outcome.symm.trans same
      rw [List.append_cons, induction later, step turn outcome, List.flatMap_cons,
        List.append_assoc]

theorem Orderly.produced (orderly : place.Orderly) (entered : place.entered? = some current)
    (below : outcomes? place.children = some transforms) :
    current.produced transforms = place.children.flatMap stands := by
  rcases entered?_eq_some.1 entered with ⟨call, answer, visited, -⟩
  have nothing : current.produced [] = [] := by simp [Node.produced]
  have produced := (orderly.children call current visited entered).produced below
  rwa [List.nil_append, nothing, List.nil_append] at produced

theorem getElem?_stands {number : Nat} {final : Node} {transform : Transform}
    (orderly : place.Orderly) (entered : place.entered? = some current)
    (below : outcomes? place.children = some transforms)
    (isChild : place.children[number]? = some child)
    (outcome : child.outcome? = some transform) (stays : transform.node? child.node = some final) :
    (current.after transforms).children[((place.children.take number).flatMap stands).length]? =
      some final := by
  have standsFor : child.stands = [final] := by
    rw [stands, outcome]
    exact Transform.nodes_of_node? stays
  have split : place.children.flatMap stands = (place.children.take number).flatMap stands ++
      final :: (place.children.drop (number + 1)).flatMap stands := by
    rcases List.getElem?_eq_some_iff.1 isChild with ⟨inside, atChild⟩
    conv => lhs; rw [← List.take_append_drop number place.children]
    rw [List.drop_eq_getElem_cons inside, atChild, List.flatMap_append,
      List.flatMap_cons, standsFor, List.singleton_append]
  rw [Node.children_after, Node.childrenAfter, orderly.produced entered below, split,
    List.append_assoc, List.cons_append, List.getElem?_append_right (Nat.le_refl _), Nat.sub_self]
  rfl

theorem entered?_of_child {number : Nat} (orderly : place.Orderly)
    (isChild : place.children[number]? = some child) :
    ∃ current, place.entered? = some current := by
  cases entered : place.entered? with
  | none =>
      rw [(orderly.ends entered).1] at isChild
      cases isChild
  | some current => exact ⟨current, rfl⟩

theorem exists_outcome_of_child {number : Nat} (below : outcomes? place.children = some transforms)
    (isChild : place.children[number]? = some child) :
    ∃ transform, child.outcome? = some transform := by
  generalize place.children = children at below isChild
  induction children generalizing number transforms with
  | nil => cases isChild
  | cons first rest induction =>
      rcases outcomes?_cons_eq_some.1 below with ⟨transform, others, settled, later, rfl⟩
      cases number with
      | zero =>
          cases isChild
          exact ⟨transform, settled⟩
      | succ number => exact induction later isChild

theorem exists_after_of_child {number : Nat} {transform : Transform} (orderly : place.Orderly)
    (isChild : place.children[number]? = some child) (lets : place.LetsStand)
    (settled : place.outcome? = some transform) :
    ∃ current transforms, place.entered? = some current ∧
      outcomes? place.children = some transforms ∧
      transform.node? place.node = some (current.after transforms) := by
  rcases entered?_of_child orderly isChild with ⟨current, entered⟩
  rcases exists_outcomes entered settled with ⟨transforms, below⟩
  exact ⟨current, transforms, entered, below,
    outcome?_node?_of_letsStand entered lets below settled⟩

/-- What has become of a place is in the result, unless a node around it was replaced on the way
back. -/
theorem descendant?_standing {path : List Nat} {transform : Transform} {final : Node}
    (orderly : ∀ place ∈ course.places, place.Orderly) (settled : course.outcome? = some transform)
    (goesOn : transform.node? course.node = some final) (found : course.at? path = some place)
    (lets : course.LetsStandAbove path) :
    ∃ other, place.outcome? = some other ∧ ∀ node, other.node? place.node = some node →
      final.descendant? (course.standing path) = some node := by
  induction path generalizing course transform final with
  | nil =>
      cases found
      refine ⟨transform, settled, fun node stays => ?_⟩
      rw [standing, Node.descendant?, ← stays, goesOn]
  | cons number path induction =>
      rw [at?] at found
      rcases Option.bind_eq_some_iff.1 found with ⟨child, isChild, found⟩
      have here := orderly course (mem_places_self course)
      rcases exists_after_of_child here isChild lets.here settled with
        ⟨current, transforms, entered, below, became⟩
      have same : final = current.after transforms := Option.some.inj (goesOn.symm.trans became)
      rcases exists_outcome_of_child below isChild with ⟨childTransform, childSettled⟩
      have childOrderly := orderly_of_child orderly (List.mem_of_getElem? isChild)
      have downTo (other : Node) (stays : childTransform.node? child.node = some other) :
          final.descendant? (course.standing (number :: path)) =
            other.descendant? (child.standing path) := by
        rw [standing, isChild, Node.descendant?, same,
          getElem?_stands here entered below isChild childSettled stays]
        rfl
      cases childGoesOn : childTransform.node? child.node with
      | some other =>
          rw [downTo other childGoesOn]
          exact induction childOrderly childSettled childGoesOn found (lets.below isChild)
      | none =>
          -- Only a child that was entered has anything below, and that one lets it stand.
          cases path with
          | nil =>
              cases found
              refine ⟨childTransform, childSettled, fun node stays => ?_⟩
              rw [childGoesOn] at stays
              cases stays
          | cons next path =>
              rw [at?] at found
              rcases Option.bind_eq_some_iff.1 found with ⟨grandchild, isGrandchild, -⟩
              rcases exists_after_of_child (childOrderly child (mem_places_self child)) isGrandchild
                (lets.below isChild).here childSettled with ⟨_, _, -, -, became⟩
              cases childGoesOn.symm.trans became

/-! The outcome at the root is the result. -/

section

variable {visitor : Visitor} {limits : WalkLimits} {root : Node} {session : Session}
  {transform : Transform}

theorem Records.walkRoot_eq_ok (records : course.Records visitor limits root session)
    (settled : course.outcome? = some transform) :
    (Walk.walkRoot visitor limits root session).1 = .ok transform := by
  have outcome := records.outcome
  rw [settled] at outcome
  cases result : (Walk.walkRoot visitor limits root session).1 with
  | error error =>
      rw [result] at outcome
      cases outcome
  | ok other =>
      rw [result] at outcome
      cases outcome
      rfl

theorem Records.walk_eq_ok {final : Node} (records : course.Records visitor limits root session)
    (settled : course.outcome? = some transform)
    (goesOn : transform.node? course.node = some final) :
    ∃ result, (walk visitor limits root session).1 = .ok result ∧ result.getD root = final ∧
      (transform = .keep → result = none) := by
  rw [records.node] at goesOn
  rw [walk_fst, records.walkRoot_eq_ok settled]
  cases transform with
  | keep =>
      cases goesOn
      exact ⟨none, rfl, rfl, fun _ => rfl⟩
  | replace node =>
      cases goesOn
      exact ⟨some final, rfl, rfl, by simp⟩
  | splice nodes => cases goesOn

theorem Records.walk_eq_error {nodes : List Node}
    (records : course.Records visitor limits root session)
    (settled : course.outcome? = some (.splice nodes)) :
    (walk visitor limits root session).1 = .error (.atNode root .rootSpliced) := by
  rw [walk_fst, records.walkRoot_eq_ok settled]
  rfl

end

end Course

end Verbatim
