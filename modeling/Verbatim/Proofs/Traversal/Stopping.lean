import Verbatim.Proofs.Traversal.Resuming
import Verbatim.Proofs.Traversal.Standing

/-! The end of a traversal that is stopped. No hook is called any more; on the way back up every
node keeps what its first children have become, that of the one in which the stop was last, and the
others as they were. -/

namespace Verbatim

namespace Course

variable {course place child : Course} {parent : Node} {transforms : List Transform}

/-- The traversal is stopped in this course by the call, which is made for the place at the end of
the path. The nodes around it are not looked at again, and none of their later children at all. -/
structure StoppedAt (course : Course) (path : List Nat) (place : Course) (call : Call Visit) :
    Prop where
  found : course.at? path = some place
  visit : place.visit = some call
  last : ∃ before, course.calls = before ++ [.visit call]
  around : ∀ above number below, path = above ++ number :: below →
    ∃ other, course.at? above = some other ∧ other.leave = none ∧
      other.children.length = number + 1

/-- How a node around the place of a stop is left: what stands for its children up to the one with
the number, and then the others, as the first look at the node left them. -/
structure Unwound (place : Course) (number : Nat) (parent : Node) (transforms : List Transform) :
    Prop where
  entered : place.entered? = some parent
  length : place.children.length = number + 1
  leave : place.leave = none
  outcomes : outcomes? place.children = some transforms
  children : (parent.after transforms).children =
    place.children.flatMap stands ++ parent.children.drop (number + 1)

/-! ## Where a traversal stops -/

theorem InTurn.length_of_isStopped {above : List Node} {earlier : List Transform}
    {courses : List Course} (inTurn : InTurn parent above earlier courses) {number : Nat}
    (isChild : courses[number]? = some child) (stopped : child.IsStopped) :
    courses.length = number + 1 := by
  induction inTurn generalizing number with
  | nil earlier => cases isChild
  | last turn =>
      cases number with
      | zero => rfl
      | succ number => cases isChild
  | cons turn settled going inTurn induction =>
      cases number with
      | zero =>
          cases isChild
          exact absurd stopped going
      | succ number => rw [List.length_cons, induction isChild]

theorem InTurn.exists_outcomes {above : List Node} {earlier : List Transform}
    {courses : List Course} (inTurn : InTurn parent above earlier courses)
    (settled : ∀ child ∈ courses, child.IsStopped → ∃ transform, child.outcome? = some transform)
    (stopped : ∃ child ∈ courses, child.IsStopped) :
    ∃ transforms, outcomes? courses = some transforms := by
  induction inTurn with
  | nil earlier =>
      rcases stopped with ⟨child, isChild, -⟩
      cases isChild
  | @last earlier child turn =>
      rcases stopped with ⟨other, isChild, stops⟩
      cases List.mem_singleton.1 isChild
      rcases settled child isChild stops with ⟨transform, outcome⟩
      exact ⟨[transform], outcomes?_cons_eq_some.2 ⟨transform, [], outcome, rfl, rfl⟩⟩
  | @cons earlier child transform rest turn outcome going inTurn induction =>
      have later : ∃ other ∈ rest, other.IsStopped := by
        rcases stopped with ⟨other, isChild, stops⟩
        rcases List.mem_cons.1 isChild with rfl | isChild
        · exact absurd stops going
        · exact ⟨other, isChild, stops⟩
      rcases induction (fun other isChild => settled other (List.mem_cons_of_mem child isChild))
        later with ⟨transforms, outcomes⟩
      exact ⟨transform :: transforms,
        outcomes?_cons_eq_some.2 ⟨transform, transforms, outcome, outcomes, rfl⟩⟩

theorem visited_here_or_below {call : Call Visit} (called : .visit call ∈ course.calls) :
    course.visit = some call ∨ ∃ child ∈ course.children, .visit call ∈ child.calls := by
  rcases mem_calls.1 called with ⟨first, visited, same⟩ | below | ⟨last, left, same⟩
  · cases same
    exact .inl visited
  · exact .inr below
  · cases same

theorem Orderly.alone (orderly : course.Orderly) {call : Call Visit} {answer : Visit}
    (visited : course.visit = some call) (answered : call.answer = .ok answer)
    (stops : answer.control = .stop) :
    course.entered? = none ∧ course.children = [] ∧ course.leave = none := by
  have ends : course.entered? = none := by
    rw [entered?, goesOn?, visited]
    simp [answered, Except.toOption, stops]
  exact ⟨ends, orderly.ends ends⟩

theorem Orderly.outcome?_of_stops (orderly : course.Orderly) {call : Call Visit} {answer : Visit}
    (visited : course.visit = some call) (answered : call.answer = .ok answer)
    (stops : answer.control = .stop) : course.outcome? = some answer.transform := by
  have ends := (orderly.alone visited answered stops).1
  rw [entered?, visited] at ends
  rw [outcome?_eq_settle, settle, visited, ends, Option.bind_some, answered]
  rfl

theorem Orderly.leave_eq_none (orderly : course.Orderly)
    (stopped : ∃ child ∈ course.children, child.IsStopped) : course.leave = none := by
  cases left : course.leave with
  | none => rfl
  | some call =>
      rcases orderly.leave call left with ⟨_, _, _, _, _, _, _, _, going⟩
      rcases stopped with ⟨child, isChild, stops⟩
      exact absurd stops (going child isChild)

theorem exists_outcome_of_isStopped (orderly : ∀ place ∈ course.places, place.Orderly)
    (stopped : course.IsStopped) : ∃ transform, course.outcome? = some transform := by
  induction course using Course.induction with
  | step course induction =>
      have here := orderly course (mem_places_self course)
      rcases isStopped_iff.1 stopped with ⟨call, visited, answer, answered, stops⟩ | below
      · exact ⟨answer.transform, here.outcome?_of_stops visited answered stops⟩
      · rcases below with ⟨child, isChild, stops⟩
        rcases List.mem_iff_getElem?.1 isChild with ⟨number, atNumber⟩
        rcases entered?_of_child here atNumber with ⟨parent, entered⟩
        rcases entered?_eq_some.1 entered with ⟨visit, answer, visited, answered, -⟩
        have settled : ∃ transforms, outcomes? course.children = some transforms := by
          apply (here.children visit parent visited entered).exists_outcomes
          · exact fun other isChild => induction other isChild (orderly_of_child orderly isChild)
          · exact ⟨child, isChild, stops⟩
        rcases settled with ⟨transforms, settled⟩
        have lets : course.LetsStand := fun other left => by
          rw [here.leave_eq_none ⟨child, isChild, stops⟩] at left
          cases left
        exact ⟨_, outcome?_of_letsStand entered visited answered settled lets⟩

theorem Orderly.stoppedAt_nil (orderly : course.Orderly) {call : Call Visit} {answer : Visit}
    (visited : course.visit = some call) (answered : call.answer = .ok answer)
    (stops : answer.control = .stop) : course.StoppedAt [] course call where
  found := rfl
  visit := visited
  last := by
    rcases orderly.alone visited answered stops with ⟨-, noChildren, noLeave⟩
    rcases course with ⟨node, visit, children, leave⟩
    cases visited
    cases noChildren
    cases noLeave
    exact ⟨[], rfl⟩
  around above number below split := by
    cases above <;> cases split

/-- A stop below a child ends the course of its parent, too. -/
theorem StoppedAt.cons {path : List Nat} {number : Nat} {call : Call Visit}
    (stoppedAt : child.StoppedAt path place call) (isChild : course.children[number]? = some child)
    (length : course.children.length = number + 1) (noLeave : course.leave = none) :
    course.StoppedAt (number :: path) place call where
  found := by
    rw [at?, isChild]
    exact stoppedAt.found
  visit := stoppedAt.visit
  last := by
    rcases stoppedAt.last with ⟨before, last⟩
    have isLast : course.children.getLast? = some child := by
      rw [List.getLast?_eq_getElem?, length]
      exact isChild
    rcases List.getLast?_eq_some_iff.1 isLast with ⟨earlier, split⟩
    rcases course with ⟨node, visit, children, leave⟩
    cases noLeave
    have split : children = earlier ++ [child] := split
    subst split
    refine ⟨(visit.map .visit).toList ++ (callsOfAll earlier ++ before), ?_⟩
    rw [calls, callsOfAll_append, callsOfAll, callsOfAll, List.append_nil, last]
    simp
  around above next below split := by
    cases above with
    | nil =>
        cases split
        exact ⟨course, rfl, noLeave, length⟩
    | cons first above =>
        cases split
        rcases stoppedAt.around above next below rfl with ⟨other, found, leave, count⟩
        refine ⟨other, ?_, leave, count⟩
        rw [at?, isChild]
        exact found

theorem exists_stoppedAt (orderly : ∀ place ∈ course.places, place.Orderly) {call : Call Visit}
    (called : .visit call ∈ course.calls) (stops : (HookCall.visit call).Stops) :
    ∃ path place, course.StoppedAt path place call := by
  induction course using Course.induction with
  | step course induction =>
      have here := orderly course (mem_places_self course)
      rcases visited_here_or_below called with visited | ⟨child, isChild, inside⟩
      · rcases stops with ⟨answer, answered, stops⟩
        exact ⟨[], course, here.stoppedAt_nil visited answered stops⟩
      · have stopped : child.IsStopped := ⟨.visit call, inside, stops⟩
        rcases List.mem_iff_getElem?.1 isChild with ⟨number, atNumber⟩
        rcases entered?_of_child here atNumber with ⟨parent, entered⟩
        rcases entered?_eq_some.1 entered with ⟨visit, answer, visited, answered, -⟩
        have length := (here.children visit parent visited entered).length_of_isStopped atNumber
          stopped
        rcases induction child isChild (orderly_of_child orderly isChild) inside with
          ⟨path, place, stoppedAt⟩
        exact ⟨number :: path, place,
          stoppedAt.cons atNumber length (here.leave_eq_none ⟨child, isChild, stopped⟩)⟩

theorem StoppedAt.letsStandAbove {path : List Nat} {call : Call Visit}
    (stoppedAt : course.StoppedAt path place call) : course.LetsStandAbove path := by
  intro above number below other split found second left
  rcases stoppedAt.around above number below split with ⟨same, foundAgain, leave, -⟩
  cases found.symm.trans foundAgain
  rw [leave] at left
  cases left

theorem StoppedAt.exists_root {path : List Nat} {call : Call Visit} {answer : Visit}
    {transform : Transform} (stoppedAt : course.StoppedAt path place call)
    (orderly : ∀ place ∈ course.places, place.Orderly) (settled : course.outcome? = some transform)
    (answered : place.outcome? = some answer.transform)
    (notSpliced : path = [] → ∀ nodes, answer.transform ≠ .splice nodes) :
    ∃ final, transform.node? course.node = some final := by
  cases path with
  | nil =>
      cases stoppedAt.found
      cases settled.symm.trans answered
      rcases transform : answer.transform with _ | node | nodes
      · exact ⟨_, rfl⟩
      · exact ⟨node, rfl⟩
      · exact absurd transform (notSpliced rfl nodes)
  | cons number path =>
      have found := stoppedAt.found
      rw [at?] at found
      rcases Option.bind_eq_some_iff.1 found with ⟨child, isChild, -⟩
      rcases exists_after_of_child (orderly course (mem_places_self course)) isChild
        stoppedAt.letsStandAbove.here settled with ⟨parent, transforms, -, -, became⟩
      exact ⟨parent.after transforms, became⟩

theorem StoppedAt.unwound {path above below : List Nat} {number : Nat} {call : Call Visit}
    {transform : Transform} {final : Node} (stoppedAt : course.StoppedAt path place call)
    (orderly : ∀ place ∈ course.places, place.Orderly) (settled : course.outcome? = some transform)
    (goesOn : transform.node? course.node = some final) (split : path = above ++ number :: below) :
    ∃ around parent transforms, course.at? above = some around ∧
      around.Unwound number parent transforms ∧
      final.descendant? (course.standing above) = some (parent.after transforms) := by
  rcases stoppedAt.around above number below split with ⟨around, found, leave, length⟩
  have here := orderly around (at?_mem_places found)
  have lets : around.LetsStand := by
    intro second left
    rw [leave] at left
    cases left
  have letsAbove : course.LetsStandAbove above := by
    intro higher next lower other splitAbove
    apply stoppedAt.letsStandAbove higher next (lower ++ number :: below) other
    rw [split, splitAbove, List.append_assoc, List.cons_append]
  rcases descendant?_standing orderly settled goesOn found letsAbove with ⟨outcome, became, stands⟩
  have isChild : ∃ child, around.children[number]? = some child :=
    ⟨_, List.getElem?_eq_getElem (by omega)⟩
  rcases isChild with ⟨child, isChild⟩
  rcases exists_after_of_child here isChild lets became with
    ⟨parent, transforms, entered, outcomes, after⟩
  refine ⟨around, parent, transforms, found, ⟨entered, length, leave, outcomes, ?_⟩,
    stands _ after⟩
  rw [Node.children_after, Node.childrenAfter, here.produced entered outcomes,
    length_of_outcomes? outcomes, length]

end Course

theorem hookCalls_of_resumes {visitor other : Visitor} (resumes : other.Resumes visitor)
    (limits : WalkLimits) (root : Node) (session : Session)
    (stopped : (Walk.walkRoot visitor limits root session).2.stopped = true) :
    ∃ before call transform control later, call.answer = .ok ⟨transform, .stop⟩ ∧
      hookCalls visitor limits root session = before ++ [.visit call] ∧
      hookCalls other limits root session =
        before ++ .visit { call with answer := .ok ⟨transform, control⟩ } :: later := by
  have lockstep := Walk.walkNode_lockstep resumes limits (root.height + limits.spareDepth) root
    (Walk.start root session) rfl
  rcases lockstep with
    ⟨-, going⟩ | ⟨-, before, call, transform, control, calls, answered, later, goesOn⟩
  · rw [Walk.walkRoot, going] at stopped
    cases stopped
  · refine ⟨before.reverse, call, transform, control, later.reverse, answered, ?_, ?_⟩
    · rw [hookCalls, Walk.walkRoot, calls, List.reverse_cons]
    · rw [hookCalls, Walk.walkRoot, ← goesOn, List.reverse_append, List.reverse_cons,
        List.append_assoc, List.singleton_append]

/-- A traversal that is stopped has gone as one by a visitor that does not stop there. No hook is
called any more; what the hooks answered so far, the last answer included, is in the result, and all
that was still to come stays as it was. -/
theorem walk_stops {visitor other : Visitor} {limits : WalkLimits} {root : Node} {session : Session}
    {call : Call Visit} {answer : Visit} (resumes : other.Resumes visitor)
    (called : .visit call ∈ hookCalls visitor limits root session)
    (answered : call.answer = .ok answer) (stops : answer.control = .stop) :
    (∃ before later control, hookCalls visitor limits root session = before ++ [.visit call] ∧
      hookCalls other limits root session =
        before ++ .visit { call with answer := .ok ⟨answer.transform, control⟩ } :: later) ∧
    ∃ (course : Course) (path : List Nat) (place : Course),
      course.Records visitor limits root session ∧ course.StoppedAt path place call ∧
      place.children = [] ∧ place.outcome? = some answer.transform ∧
      (∀ nodes, path = [] → answer.transform = .splice nodes →
        (walk visitor limits root session).1 = .error (.atNode root .rootSpliced)) ∧
      ((path = [] → ∀ nodes, answer.transform ≠ .splice nodes) →
        ∃ result, (walk visitor limits root session).1 = .ok result ∧
          (∀ node, answer.transform.node? place.node = some node →
            (result.getD root).descendant? (course.standing path) = some node) ∧
          ∀ above number below, path = above ++ number :: below →
            ∃ around parent transforms, course.at? above = some around ∧
              around.Unwound number parent transforms ∧
              (result.getD root).descendant? (course.standing above) =
                some (parent.after transforms)) := by
  rcases Course.exists_records visitor limits root session with ⟨course, records⟩
  have calledHere : .visit call ∈ course.calls := records.calls ▸ called
  have stopsHere : (HookCall.visit call).Stops := ⟨answer, answered, stops⟩
  have isStopped : course.IsStopped := ⟨.visit call, calledHere, stopsHere⟩
  rcases Course.exists_stoppedAt records.orderly calledHere stopsHere with ⟨path, place, stoppedAt⟩
  rcases Course.exists_outcome_of_isStopped records.orderly isStopped with ⟨transform, settled⟩
  have placeOrderly := records.orderly place (Course.at?_mem_places stoppedAt.found)
  have alone := placeOrderly.alone stoppedAt.visit answered stops
  have placeOutcome := placeOrderly.outcome?_of_stops stoppedAt.visit answered stops
  refine ⟨?_, course, path, place, records, stoppedAt, alone.2.1, placeOutcome, ?_, ?_⟩
  · rcases hookCalls_of_resumes resumes limits root session (records.stopped.2 isStopped) with
      ⟨before, last, transform, control, later, lastAnswer, calls, goesOn⟩
    -- both are the last call, so the two accounts tell of the same stop
    rcases stoppedAt.last with ⟨others, same⟩
    rw [records.calls, calls] at same
    cases (List.append_inj' same rfl).2
    cases answered.symm.trans lastAnswer
    exact ⟨before, later, control, calls, goesOn⟩
  · intro nodes here splices
    subst here
    cases stoppedAt.found
    rw [settled, splices] at placeOutcome
    cases placeOutcome
    exact records.walk_eq_error settled
  · intro notSpliced
    rcases stoppedAt.exists_root records.orderly settled placeOutcome notSpliced with
      ⟨final, goesOn⟩
    rcases records.walk_eq_ok settled goesOn with ⟨result, walked, same, -⟩
    subst same
    refine ⟨result, walked, ?_, ?_⟩
    · rcases Course.descendant?_standing records.orderly settled goesOn stoppedAt.found
        stoppedAt.letsStandAbove with ⟨outcome, became, stands⟩
      cases placeOutcome.symm.trans became
      exact stands
    · exact fun above number below split =>
        stoppedAt.unwound records.orderly settled goesOn split

/-- Removes nodes with a text. -/
def Visitor.removing (text : String) (control : Control) : Visitor :=
  .onVisit "remove" fun node =>
    if node.text = some text then return ⟨.remove, control⟩ else return .keep

theorem Visitor.removing_resumes (text : String) (control : Control) :
    (Visitor.removing text control).Resumes (Visitor.removing text .stop) where
  visit node trail session := by
    by_cases found : node.text = some text
    · refine .inr ⟨.remove, control, session, ?_, ?_⟩ <;>
      · simp only [removing, onVisit, if_pos found]
        rfl
    · refine .inl ?_
      simp only [removing, onVisit, if_neg found]
  leave _ := rfl

/-- The second of three names is removed; the third one is not looked at. -/
theorem walk_stops_at_second_name :
    let names := ["a", "b", "c"].map (Node.token .identifier)
    let root := Node.branch .sourceFile names
    let session := Session.start 1 false
    let second : Call Visit := ⟨Node.token .identifier "b", ⟨Node.token .identifier "b", [root]⟩,
      { session with board := .enter .empty }, .ok ⟨.remove, .stop⟩⟩
    (∃ before later control,
      hookCalls (.removing "b" .stop) ⟨false, 0⟩ root session = before ++ [.visit second] ∧
      hookCalls (.removing "b" .descend) ⟨false, 0⟩ root session =
        before ++ .visit { second with answer := .ok ⟨.remove, control⟩ } :: later) ∧
    ∃ (course : Course) (path : List Nat) (place : Course),
      course.Records (.removing "b" .stop) ⟨false, 0⟩ root session ∧
      course.StoppedAt path place second ∧ path ≠ [] ∧ place.children = [] ∧
      place.outcome? = some .remove ∧
      ∃ result, (walk (.removing "b" .stop) ⟨false, 0⟩ root session).1 = .ok (some result) ∧
        result.children = ["a", "c"].map (Node.token .identifier) ∧
        ∀ above number below, path = above ++ number :: below →
          ∃ around parent transforms, course.at? above = some around ∧
            around.Unwound number parent transforms ∧
            result.descendant? (course.standing above) = some (parent.after transforms) := by
  intro names root session second
  have called : .visit second ∈ hookCalls (.removing "b" .stop) ⟨false, 0⟩ root session :=
    List.mem_of_getElem? (i := 3) rfl
  have answered : second.answer = .ok ⟨.remove, .stop⟩ := rfl
  rcases walk_stops (Visitor.removing_resumes "b" .descend) called answered rfl with
    ⟨calls, course, path, place, records, stoppedAt, nothing, removed, failed, finished⟩
  have inside : path ≠ [] := fun isRoot => nomatch failed [] isRoot rfl
  rcases finished (fun isRoot => absurd isRoot inside) with ⟨result, walked, -, unwound⟩
  cases walked
  exact ⟨calls, course, path, place, records, stoppedAt, inside, nothing, removed, _, rfl, rfl,
    unwound⟩

end Verbatim
