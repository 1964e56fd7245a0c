import Verbatim.Proofs.Traversal.Steps

/-! What happens in a traversal, node by node. The calls of hooks come one after the other; put into
a tree they tell for which node each one is made, what has become of that node, and what hooks could
see around it at the time. -/

namespace Verbatim

namespace HookCall

/-- The traversal is to end here. -/
def Stops : HookCall → Prop
  | visit call => ∃ answer, call.answer = .ok answer ∧ answer.control = .stop
  | leave _ => False

/-- The node stays the very node that the hook was called for. -/
def Keeps : HookCall → Prop
  | visit call => ∃ answer, call.answer = .ok answer ∧ answer.transform = .keep
  | leave call => call.answer = .ok .keep

end HookCall

/-- What a traversal does at a node: the first look, unless the limits forbid it, then the walks of
children, then the second look. -/
structure Course where
  node : Node
  visit : Option (Call Visit)
  children : List Course
  leave : Option (Call Transform)

namespace Course

theorem induction {motive : Course → Prop}
    (step : ∀ course : Course, (∀ child ∈ course.children, motive child) → motive course)
    (course : Course) : motive course :=
  Course.rec (motive_1 := motive)
    (motive_2 := fun courses => ∀ course ∈ courses, motive course)
    (fun node visit children leave induction => step ⟨node, visit, children, leave⟩ induction)
    (fun _ member => absurd member List.not_mem_nil)
    (fun _ _ first rest course member => by
      rcases List.mem_cons.1 member with rfl | member
      · exact first
      · exact rest course member)
    course

/-! ## What a course tells -/

mutual

/-- All calls, in the order in which they are made. -/
def calls : Course → List HookCall
  | ⟨_, visit, children, leave⟩ =>
    (visit.map .visit).toList ++ callsOfAll children ++ (leave.map .leave).toList

def callsOfAll : List Course → List HookCall
  | [] => []
  | course :: rest => course.calls ++ callsOfAll rest

end

mutual

def places : Course → List Course
  | ⟨node, visit, children, leave⟩ =>
    ⟨node, visit, children, leave⟩ :: placesOfAll children

def placesOfAll : List Course → List Course
  | [] => []
  | course :: rest => course.places ++ placesOfAll rest

end

/-- The course at the end of a path of child numbers. -/
def at? (course : Course) : List Nat → Option Course
  | [] => some course
  | number :: path => (course.children[number]?).bind (·.at? path)

/-- The node that the visit lets go on. -/
def goesOn? (node : Node) (visit : Option (Call Visit)) : Option Node :=
  match visit.bind (·.answer.toOption) with
  | none => none
  | some answer => if answer.control = .stop then none else answer.transform.node? node

def entered? (course : Course) : Option Node := goesOn? course.node course.visit

/-- What becomes of a node by the answers of its hooks, when this has become of its children. -/
def settle (node : Node) (visit : Option (Call Visit)) (children : Option (List Transform))
    (leave : Option (Call Transform)) : Option Transform := do
  let answer ← visit.bind (·.answer.toOption)
  match goesOn? node visit with
  | none => return answer.transform
  | some current =>
    let transforms ← children
    let changed := !answer.transform.isKeep || !transforms.all (·.isKeep)
    let result := Transform.ofChange changed (current.after transforms)
    match leave with
    | none => return result
    | some call => return (← call.answer.toOption).over result

mutual

/-- What becomes of the node, unless a hook fails. -/
def outcome? : Course → Option Transform
  | ⟨node, visit, children, leave⟩ => settle node visit (outcomes? children) leave

def outcomes? : List Course → Option (List Transform)
  | [] => some []
  | course :: rest => do return (← course.outcome?) :: (← outcomes? rest)

end

/-- Somewhere in this course the traversal is stopped. -/
def IsStopped (course : Course) : Prop := ∃ call ∈ course.calls, call.Stops

/-! ## How traversals go -/

/-- The walk of a child begins when `earlier` has become of the children in front of it. Hooks
see its parent with these changes. -/
structure Turn (parent : Node) (above : List Node) (earlier : List Transform) (child : Course) :
    Prop where
  node : parent.children[earlier.length]? = some child.node
  trail : ∀ call, child.visit = some call →
    call.trail = ⟨child.node, parent.after earlier :: above⟩

/-- Children are walked one after the other, until a hook fails or stops. -/
inductive InTurn (parent : Node) (above : List Node) : List Transform → List Course → Prop
  | nil (earlier : List Transform) : InTurn parent above earlier []
  | last {earlier : List Transform} {child : Course} :
      Turn parent above earlier child → InTurn parent above earlier [child]
  | cons {earlier : List Transform} {child : Course} {transform : Transform} {rest : List Course} :
      Turn parent above earlier child → child.outcome? = some transform → ¬ child.IsStopped →
      InTurn parent above (earlier ++ [transform]) rest →
      InTurn parent above earlier (child :: rest)

structure Orderly (place : Course) : Prop where
  visit : ∀ call, place.visit = some call → call.node = place.node ∧ call.trail.here = place.node
  ends : place.entered? = none → place.children = [] ∧ place.leave = none
  children : ∀ visit current, place.visit = some visit → place.entered? = some current →
    InTurn current visit.trail.above [] place.children
  leave : ∀ call, place.leave = some call →
    ∃ visit current transforms, place.visit = some visit ∧ place.entered? = some current ∧
      outcomes? place.children = some transforms ∧ call.node = current.after transforms ∧
      call.trail = ⟨call.node, visit.trail.above⟩ ∧ ∀ child ∈ place.children, ¬ child.IsStopped

/-- The course is that of the walk of a node from a state on. -/
structure Fits (course : Course) (node : Node) (state : WalkState)
    (result : Except WalkError Transform × WalkState) : Prop where
  node : course.node = node
  calls : result.2.calls = course.calls.reverse ++ state.calls
  outcome : course.outcome? = result.1.toOption
  trail : ∀ call, course.visit = some call → call.trail = state.trail
  stopped : result.2.stopped = true ↔ course.IsStopped
  orderly : ∀ place ∈ course.places, place.Orderly

/-- The courses are those of the walks of children. -/
structure FitAll (courses : List Course) (parent : Node) (earlier : List Transform)
    (state : WalkState) (result : Except WalkError (List Transform) × WalkState) : Prop where
  calls : result.2.calls = (callsOfAll courses).reverse ++ state.calls
  outcomes : (outcomes? courses).map (earlier ++ ·) = result.1.toOption
  stopped : result.2.stopped = true ↔ state.stopped = true ∨ ∃ child ∈ courses, child.IsStopped
  rests : state.stopped = true → courses = []
  inTurn : InTurn parent state.trail.above earlier courses
  orderly : ∀ place ∈ placesOfAll courses, place.Orderly

/-! ## Every traversal has a course -/

theorem mem_placesOfAll {place : Course} {courses : List Course} :
    place ∈ placesOfAll courses ↔ ∃ course ∈ courses, place ∈ course.places := by
  induction courses with
  | nil => simp [placesOfAll]
  | cons first rest induction => simp [placesOfAll, induction]

theorem mem_callsOfAll {call : HookCall} {courses : List Course} :
    call ∈ callsOfAll courses ↔ ∃ course ∈ courses, call ∈ course.calls := by
  induction courses with
  | nil => simp [callsOfAll]
  | cons first rest induction => simp [callsOfAll, induction]

theorem mem_calls {course : Course} {call : HookCall} :
    call ∈ course.calls ↔
      (∃ first, course.visit = some first ∧ call = .visit first) ∨
        (∃ child ∈ course.children, call ∈ child.calls) ∨
        ∃ last, course.leave = some last ∧ call = .leave last := by
  rcases course with ⟨node, visit, children, leave⟩
  rw [calls, List.append_assoc, List.mem_append, List.mem_append, mem_callsOfAll]
  cases visit <;> cases leave <;> simp

theorem mem_places {course place : Course} :
    place ∈ course.places ↔ place = course ∨ ∃ child ∈ course.children, place ∈ child.places := by
  rcases course with ⟨node, visit, children, leave⟩
  rw [places, List.mem_cons, mem_placesOfAll]

theorem mem_places_self (course : Course) : course ∈ course.places := mem_places.2 (.inl rfl)

theorem places_subset_of_mem {course place : Course} (member : place ∈ course.places) :
    place.places ⊆ course.places := by
  induction course using Course.induction with
  | step course induction =>
      rcases mem_places.1 member with rfl | ⟨child, isChild, member⟩
      · exact List.Subset.refl _
      · intro other inside
        exact mem_places.2 (.inr ⟨child, isChild, induction child isChild member inside⟩)

theorem child_mem_places {course place child : Course} {number : Nat}
    (member : place ∈ course.places) (isChild : place.children[number]? = some child) :
    child ∈ course.places := by
  apply places_subset_of_mem member
  exact mem_places.2 (.inr ⟨child, List.mem_of_getElem? isChild, mem_places_self child⟩)

theorem isStopped_iff {course : Course} :
    course.IsStopped ↔ (∃ call, course.visit = some call ∧ (HookCall.visit call).Stops) ∨
      ∃ child ∈ course.children, child.IsStopped := by
  constructor
  · rintro ⟨call, called, stops⟩
    rcases mem_calls.1 called with ⟨first, visited, rfl⟩ | ⟨child, isChild, called⟩ | ⟨last, -, rfl⟩
    · exact .inl ⟨first, visited, stops⟩
    · exact .inr ⟨child, isChild, call, called, stops⟩
    · exact absurd stops id
  · rintro (⟨first, visited, stops⟩ | ⟨child, isChild, call, called, stops⟩)
    · exact ⟨.visit first, mem_calls.2 (.inl ⟨first, visited, rfl⟩), stops⟩
    · exact ⟨call, mem_calls.2 (.inr (.inl ⟨child, isChild, called⟩)), stops⟩

theorem orderly_of_child {course child : Course} (orderly : ∀ place ∈ course.places, place.Orderly)
    (isChild : child ∈ course.children) : ∀ place ∈ child.places, place.Orderly := by
  rcases List.mem_iff_getElem?.1 isChild with ⟨number, isChild⟩
  intro place member
  exact orderly place (places_subset_of_mem
    (child_mem_places (mem_places_self course) isChild) member)

theorem at?_mem_places {course place : Course} {path : List Nat}
    (found : course.at? path = some place) : place ∈ course.places := by
  induction path generalizing course with
  | nil =>
      cases found
      exact mem_places_self _
  | cons number path induction =>
      rw [at?] at found
      rcases Option.bind_eq_some_iff.1 found with ⟨child, isChild, found⟩
      exact places_subset_of_mem (child_mem_places (mem_places_self course) isChild)
        (induction found)

theorem callsOfAll_append (first second : List Course) :
    callsOfAll (first ++ second) = callsOfAll first ++ callsOfAll second := by
  induction first with
  | nil => rfl
  | cons course rest induction =>
      rw [List.cons_append, callsOfAll, callsOfAll, induction, List.append_assoc]

theorem FitAll.nothing {parent : Node} {earlier : List Transform} {state : WalkState} :
    FitAll [] parent earlier state (.ok earlier, state) where
  calls := rfl
  outcomes := congrArg some (List.append_nil earlier)
  stopped := by simp
  rests _ := rfl
  inTurn := .nil earlier
  orderly _ member := absurd member List.not_mem_nil

theorem Fits.last {course : Course} {parent child : Node} {earlier : List Transform}
    {state after : WalkState} {error : WalkError}
    (fits : course.Fits child (state.down child) (.error error, after))
    (turn : Turn parent state.trail.above earlier course) (going : state.stopped = false) :
    FitAll [course] parent earlier state (.error error, after) where
  calls := by
    rw [callsOfAll, callsOfAll, List.append_nil]
    exact fits.calls
  outcomes := by
    have failed : course.outcome? = none := fits.outcome
    rw [outcomes?, failed]
    rfl
  stopped := by
    rw [going]
    simpa using fits.stopped
  rests stopped := by
    rw [going] at stopped
    cases stopped
  inTurn := .last turn
  orderly place member := by
    rcases mem_placesOfAll.1 member with ⟨other, member, inside⟩
    rw [List.mem_singleton.1 member] at inside
    exact fits.orderly place inside

/-- After a child the next ones follow, unless it has stopped the traversal. -/
theorem Fits.cons {course : Course} {courses : List Course} {parent child : Node}
    {earlier : List Transform} {transform : Transform} {state after : WalkState}
    {result : Except WalkError (List Transform) × WalkState}
    (fits : course.Fits child (state.down child) (.ok transform, after))
    (turn : Turn parent state.trail.above earlier course) (going : state.stopped = false)
    (fitAll : FitAll courses parent (earlier ++ [transform])
      ((after.back state.trail).showing (parent.after (earlier ++ [transform]))) result) :
    FitAll (course :: courses) parent earlier state result where
  calls := by
    rw [callsOfAll, List.reverse_append, List.append_assoc, fitAll.calls]
    exact congrArg _ fits.calls
  outcomes := by
    have settled : course.outcome? = some transform := fits.outcome
    rw [outcomes?, settled, ← fitAll.outcomes]
    cases outcomes? courses with
    | none => rfl
    | some transforms => exact congrArg some (List.append_assoc earlier [transform] transforms).symm
  stopped := by
    have here : after.stopped = true ↔ course.IsStopped := fits.stopped
    have below : result.2.stopped = true ↔ after.stopped = true ∨
        ∃ child ∈ courses, child.IsStopped :=
      fitAll.stopped
    rw [below, here, going]
    simp
  rests stopped := by
    rw [going] at stopped
    cases stopped
  inTurn := by
    have here : after.stopped = true ↔ course.IsStopped := fits.stopped
    by_cases stopped : course.IsStopped
    · rw [fitAll.rests (here.2 stopped)]
      exact .last turn
    · exact .cons turn fits.outcome stopped fitAll.inTurn
  orderly place member := by
    rcases mem_placesOfAll.1 member with ⟨other, member, inside⟩
    rcases List.mem_cons.1 member with rfl | member
    · exact fits.orderly place inside
    · exact fitAll.orderly place (mem_placesOfAll.2 ⟨other, member, inside⟩)

section

variable {walkChild : Node → WalkM Transform} {state : WalkState}

/-- If the walks of children have courses, so has going through them. -/
theorem exists_fitAll
    (each : ∀ (child : Node) (state : WalkState), state.stopped = false →
      state.trail.here = child →
      ∃ course : Course, course.Fits child state (Walk.runAt (walkChild child) state))
    {parent : Node} {rest : List Node} {earlier : List Transform}
    (next : parent.children.drop earlier.length = rest)
    (here : state.trail.here = parent.after earlier) :
    ∃ courses : List Course, FitAll courses parent earlier state
      (Walk.runAt (Walk.goThrough walkChild parent earlier rest) state) := by
  induction rest generalizing earlier state with
  | nil => exact ⟨[], .nothing⟩
  | cons child rest induction =>
      cases going : state.stopped with
      | true =>
          rw [Walk.runAt_goThrough_stopped going]
          exact ⟨[], .nothing⟩
      | false =>
          rw [Walk.runAt_goThrough_cons going]
          rcases each child (state.down child) going rfl with ⟨course, fits⟩
          have turn : Turn parent state.trail.above earlier course := by
            constructor
            · rw [← List.head?_drop, next, fits.node]
              rfl
            · intro call visited
              rw [fits.trail call visited, fits.node, ← here]
              rfl
          rcases walked : Walk.runAt (walkChild child) (state.down child) with
            ⟨error | transform, after⟩
          · rw [walked] at fits
            exact ⟨[course], fits.last turn going⟩
          · rw [walked] at fits
            have later : parent.children.drop (earlier ++ [transform]).length = rest := by
              rw [List.length_append, List.length_singleton]
              exact Node.drop_of_drop_eq_cons next
            have following : ∃ courses : List Course, FitAll courses parent (earlier ++ [transform])
                ((after.back state.trail).showing (parent.after (earlier ++ [transform]))) _ :=
              induction later rfl
            rcases following with ⟨courses, fitAll⟩
            exact ⟨course :: courses, fits.cons turn going fitAll⟩

end

/-! Of nodes. -/

section

variable {node current : Node} {state : WalkState} {call : Call Visit} {answer : Visit}
  {courses : List Course}

theorem fits_alone {visit : Option (Call Visit)} {result : Except WalkError Transform × WalkState}
    (here : ∀ call, visit = some call → call.node = node ∧ call.trail = state.trail ∧
      state.trail.here = node)
    (ends : goesOn? node visit = none)
    (calls : result.2.calls = (visit.map .visit).toList ++ state.calls)
    (outcome : (visit.bind (·.answer.toOption)).map (·.transform) = result.1.toOption)
    (stopped : result.2.stopped = true ↔ ∃ call, visit = some call ∧ (HookCall.visit call).Stops) :
    (Course.mk node visit [] none).Fits node state result where
  node := rfl
  calls := by
    rw [calls, Course.calls, callsOfAll]
    cases visit <;> rfl
  outcome := by
    rw [outcome?, settle, ends, ← outcome]
    cases visit.bind (·.answer.toOption) <;> rfl
  trail call visited := (here call visited).2.1
  stopped := by
    rw [stopped, isStopped_iff]
    simp
  orderly place member := by
    rw [List.mem_singleton.1 (show place ∈ [Course.mk node visit [] none] from member)]
    constructor
    · intro call visited
      rcases here call visited with ⟨sameNode, sameTrail, atNode⟩
      exact ⟨sameNode, sameTrail ▸ atNode⟩
    · exact fun _ => ⟨rfl, rfl⟩
    · intro visit current visited entered
      rw [entered?, ends] at entered
      cases entered
    · intro call left
      cases left

/-! A node that is entered: the first look lets it, or what it is replaced by, go on. -/

section

variable (here : state.trail.here = node)
  (asked : call = ⟨node, state.trail, state.session, .ok answer⟩)
  (goes : answer.control ≠ .stop) (goesOn : answer.transform.node? node = some current)
  {session : Session} {result : Except WalkError (List Transform) × WalkState}
  (fitAll : FitAll courses current [] ((state.after session (.visit call)).showing current) result)

include asked goes goesOn in
theorem goesOn?_eq_some : goesOn? node (some call) = some current := by
  rw [asked, goesOn?]
  simp only [Option.bind_some, Except.toOption, if_neg goes, goesOn]

include asked goes in
theorem isStopped_entered {leave : Option (Call Transform)} :
    (Course.mk node (some call) courses leave).IsStopped ↔ ∃ child ∈ courses, child.IsStopped := by
  rw [isStopped_iff]
  constructor
  · rintro (⟨first, same, other, answered, stops⟩ | stopped)
    · cases same
      rw [asked] at answered
      cases answered
      exact absurd stops goes
    · exact stopped
  · exact .inr

include here asked goes goesOn fitAll in
theorem orderly_entered {leave : Option (Call Transform)}
    (second : ∀ call, leave = some call →
      ∃ transforms, outcomes? courses = some transforms ∧ call.node = current.after transforms ∧
        call.trail = ⟨call.node, state.trail.above⟩ ∧ ∀ child ∈ courses, ¬ child.IsStopped) :
    ∀ place ∈ (Course.mk node (some call) courses leave).places, place.Orderly := by
  have entered : goesOn? node (some call) = some current := goesOn?_eq_some asked goes goesOn
  have trail : call.trail = state.trail := by rw [asked]
  intro place member
  rcases mem_places.1 member with rfl | below
  · constructor
    · intro other visited
      cases visited
      rw [asked]
      exact ⟨rfl, here⟩
    · intro absent
      rw [entered?, entered] at absent
      cases absent
    · intro visit other visited otherEntered
      rw [entered?, entered] at otherEntered
      cases otherEntered
      cases visited
      rw [trail]
      exact fitAll.inTurn
    · intro other left
      rcases second other left with ⟨transforms, outcomes, atNode, around, going⟩
      exact ⟨call, current, transforms, rfl, entered, outcomes, atNode, trail ▸ around, going⟩
  · exact fitAll.orderly place (mem_placesOfAll.2 below)

include here asked goes goesOn fitAll in
theorem fits_unfinished (going : state.stopped = false) :
    (Course.mk node (some call) courses none).Fits node state
      (result.1.map fun transforms =>
        .ofChange (!answer.transform.isKeep || !transforms.all (·.isKeep))
          (current.after transforms), result.2) where
  node := rfl
  calls := by
    rw [fitAll.calls, calls]
    simp [WalkState.after, WalkState.showing]
  outcome := by
    have outcomes : outcomes? courses = result.1.toOption := by
      rw [← fitAll.outcomes]
      simp
    rw [outcome?, settle, goesOn?_eq_some asked goes goesOn, outcomes, asked]
    cases result.1 <;> rfl
  trail other visited := by
    cases visited
    rw [asked]
  stopped := by
    rw [fitAll.stopped, isStopped_entered asked goes]
    simp [WalkState.after, WalkState.showing, going]
  orderly := orderly_entered here asked goes goesOn fitAll fun _ left => by cases left

include here asked goes goesOn in
/-- With a second look at what the children have made of the node. -/
theorem exists_fits_lookAgain (visitor : Visitor)
    {transforms : List Transform} {middle : WalkState} (on : middle.stopped = false)
    (trail : middle.trail = ⟨current.after transforms, state.trail.above⟩)
    (fitAll : FitAll courses current [] ((state.after session (.visit call)).showing current)
      (.ok transforms, middle)) :
    ∃ course : Course, course.Fits node state
      (Walk.runAt (Walk.lookAgain visitor (current.after transforms)
        (.ofChange (!answer.transform.isKeep || !transforms.all (·.isKeep))
          (current.after transforms))) middle) := by
  have outcomes : outcomes? courses = some transforms := by
    have mapped : (outcomes? courses).map ([] ++ ·) = some transforms := fitAll.outcomes
    simpa using mapped
  have below : ¬ ∃ child ∈ courses, child.IsStopped := by
    intro stopped
    have stops : middle.stopped = true := fitAll.stopped.2 (.inr stopped)
    rw [on] at stops
    cases stops
  rcases answered : (visitor.leave (current.after transforms) middle.trail).run.run middle.session
    with ⟨second, after⟩
  let left : Call Transform := ⟨current.after transforms, middle.trail, middle.session, second⟩
  refine ⟨Course.mk node (some call) courses (some left), ?_⟩
  rw [Walk.runAt_lookAgain answered]
  constructor
  · rfl
  · rw [calls]
    have before : middle.calls = (callsOfAll courses).reverse ++ (.visit call :: state.calls) :=
      fitAll.calls
    simp [WalkState.after, before, left]
  · rw [outcome?, settle, goesOn?_eq_some asked goes goesOn, outcomes, asked]
    rcases second with error | ⟨⟩ | _ | _ <;> rfl
  · intro other visited
    cases visited
    rw [asked]
  · rw [isStopped_entered asked goes]
    refine iff_of_false (fun stopped => ?_) below
    have stops : middle.stopped = true := stopped
    rw [on] at stops
    cases stops
  · apply orderly_entered here asked goes goesOn fitAll
    intro other same
    cases same
    refine ⟨transforms, outcomes, rfl, trail, ?_⟩
    exact fun child member stopped => below ⟨child, member, stopped⟩

include here asked goes goesOn in
theorem exists_fits_finish (going : state.stopped = false) {walkChild : Node → WalkM Transform}
    (each : ∀ (child : Node) (state : WalkState), state.stopped = false →
      state.trail.here = child →
      ∃ course : Course, course.Fits child state (Walk.runAt (walkChild child) state))
    (visitor : Visitor) :
    ∃ course : Course, course.Fits node state
      (Walk.runAt (Walk.finishNode visitor walkChild current (!answer.transform.isKeep)
        (answer.control = .descend)) (state.after session (.visit call))) := by
  by_cases descend : answer.control = .descend
  · rw [decide_eq_true descend, Walk.runAt_finishNode_descend]
    have below : ∃ courses : List Course, FitAll courses current []
        ((state.after session (.visit call)).showing current) _ :=
      exists_fitAll each (Walk.drop_length_nil current.children) rfl
    rcases below with ⟨courses, fitAll⟩
    rcases gone : Walk.runAt (Walk.goThrough walkChild current [] current.children)
        ((state.after session (.visit call)).showing current) with ⟨error | transforms, middle⟩
    · rw [gone] at fitAll
      exact ⟨_, fits_unfinished here asked goes goesOn fitAll going⟩
    · rw [gone] at fitAll
      have trail := Walk.goThrough_trail rfl gone
      rw [Walk.followed_ok]
      split
      · exact ⟨_, fits_unfinished here asked goes goesOn fitAll going⟩
      case isFalse on =>
        rw [Bool.not_eq_true] at on
        exact exists_fits_lookAgain here asked goes goesOn visitor on trail fitAll
  · rw [decide_eq_false descend, Walk.runAt_finishNode_skip]
    have alone := exists_fits_lookAgain here asked goes goesOn visitor
      (show ((state.after session (.visit call)).showing current).stopped = false from going)
      (show _ = Trail.mk (current.after []) state.trail.above from rfl) .nothing
    simpa using alone

end

end

/-- The walk of a node has a course. -/
theorem exists_fits (visitor : Visitor) (limits : WalkLimits) (depth : Nat) (node : Node)
    (state : WalkState) (going : state.stopped = false) (here : state.trail.here = node) :
    ∃ course : Course,
      course.Fits node state (Walk.runAt (Walk.walkNode visitor limits depth node) state) := by
  induction depth generalizing node state with
  | zero =>
      refine ⟨⟨node, none, [], none⟩, fits_alone (by simp) rfl rfl rfl ?_⟩
      simp [Walk.walkNode, going]
  | succ depth induction =>
      rw [Walk.runAt_walkNode_succ]
      cases refused : Walk.refusal? limits state.session with
      | some error =>
          refine ⟨⟨node, none, [], none⟩, fits_alone (by simp) rfl rfl rfl ?_⟩
          simp [going]
      | none =>
          rcases answered : (visitor.visit node state.trail).run.run state.session with
            ⟨answer, session⟩
          let call : Call Visit := ⟨node, state.trail, state.session, answer⟩
          have atCall : ∀ other, some call = some other → other.node = node ∧
              other.trail = state.trail ∧ state.trail.here = node := by
            intro other same
            cases same
            exact ⟨rfl, rfl, here⟩
          have stays : (state.after session (.visit call)).stopped = false := going
          simp only [Walk.visit, Walk.runAt_call, answered]
          cases answer with
          | error error =>
              simp only [Walk.mapError_error, Walk.followed_error]
              refine ⟨⟨node, some call, [], none⟩, fits_alone atCall rfl rfl rfl ?_⟩
              simp [call, stays, HookCall.Stops]
          | ok answer =>
              simp only [Walk.mapError_ok, Walk.followed_ok]
              by_cases stops : answer.control = .stop
              · rw [if_pos stops]
                refine ⟨⟨node, some call, [], none⟩, fits_alone atCall ?_ rfl rfl ?_⟩
                · simp [goesOn?, call, Except.toOption, stops]
                · simp [call, HookCall.Stops, stops, WalkState.stopping]
              · rw [if_neg stops]
                cases goesOn : answer.transform.node? node with
                | none =>
                    refine ⟨⟨node, some call, [], none⟩, fits_alone atCall ?_ rfl rfl ?_⟩
                    · simp [goesOn?, call, Except.toOption, goesOn]
                    · simp [call, HookCall.Stops, stops, stays]
                | some current =>
                    exact exists_fits_finish here rfl stops goesOn going induction visitor

/-- The course tells of the traversal of a tree. -/
structure Records (course : Course) (visitor : Visitor) (limits : WalkLimits) (root : Node)
    (session : Session) : Prop where
  node : course.node = root
  calls : course.calls = hookCalls visitor limits root session
  outcome : course.outcome? = (Walk.walkRoot visitor limits root session).1.toOption
  trail : ∀ call, course.visit = some call → call.trail = ⟨root, []⟩
  stopped : (Walk.walkRoot visitor limits root session).2.stopped = true ↔ course.IsStopped
  orderly : ∀ place ∈ course.places, place.Orderly

theorem exists_records (visitor : Visitor) (limits : WalkLimits) (root : Node) (session : Session) :
    ∃ course : Course, course.Records visitor limits root session := by
  rcases exists_fits visitor limits (root.height + limits.spareDepth) root
    (Walk.start root session) rfl rfl with ⟨course, fits⟩
  refine ⟨course, fits.node, ?_, fits.outcome, fits.trail, fits.stopped, fits.orderly⟩
  have calls : (Walk.walkRoot visitor limits root session).2.calls = course.calls.reverse ++ [] :=
    fits.calls
  rw [hookCalls, calls, List.append_nil, List.reverse_reverse]

/-! ## Children in turn -/

theorem outcomes?_cons_eq_some {course : Course} {rest : List Course} {all : List Transform} :
    outcomes? (course :: rest) = some all ↔
      ∃ transform transforms, course.outcome? = some transform ∧
        outcomes? rest = some transforms ∧ all = transform :: transforms := by
  rw [outcomes?]
  cases course.outcome? with
  | none => simp
  | some transform =>
      cases outcomes? rest with
      | none => simp
      | some transforms => simp [eq_comm]

theorem length_of_outcomes? {courses : List Course} {transforms : List Transform}
    (settled : outcomes? courses = some transforms) : transforms.length = courses.length := by
  induction courses generalizing transforms with
  | nil =>
      cases settled
      rfl
  | cons course rest induction =>
      rcases outcomes?_cons_eq_some.1 settled with ⟨transform, others, -, later, rfl⟩
      rw [List.length_cons, List.length_cons, induction later]

theorem InTurn.turn {parent : Node} {above : List Node} {earlier : List Transform}
    {courses : List Course} (inTurn : InTurn parent above earlier courses) {number : Nat}
    {child : Course} (isChild : courses[number]? = some child) :
    ∃ transforms, outcomes? (courses.take number) = some transforms ∧
      Turn parent above (earlier ++ transforms) child := by
  induction inTurn generalizing number with
  | nil earlier => cases isChild
  | last turn =>
      cases number with
      | zero =>
          cases isChild
          exact ⟨[], rfl, by rwa [List.append_nil]⟩
      | succ number => cases isChild
  | @cons earlier first transform rest turn settled going inTurn induction =>
      cases number with
      | zero =>
          cases isChild
          exact ⟨[], rfl, by rwa [List.append_nil]⟩
      | succ number =>
          rcases induction isChild with ⟨transforms, before, later⟩
          rw [List.append_assoc, List.singleton_append] at later
          refine ⟨transform :: transforms, ?_, later⟩
          exact outcomes?_cons_eq_some.2 ⟨transform, transforms, settled, before, rfl⟩

end Course

end Verbatim
