import Verbatim.Proofs.Edits.Respecting
import Verbatim.Proofs.Traversal.Plain
import Verbatim.Proofs.Traversal.Standing

/-! What a traversal shares with the tree it is given. Where no hook changed anything the very nodes
are given back, and a node that is made anew because of its children differs from the old one in
them only. -/

namespace Verbatim

namespace Course

variable {course place : Course}

/-- Every hook that is called for this node or below keeps the node it is called for. -/
def KeepsAll (place : Course) : Prop := ∀ call ∈ place.calls, call.Keeps

/-- The hooks that are called for the node itself keep it. -/
structure KeepsOwn (place : Course) : Prop where
  visit : ∀ call, place.visit = some call → (HookCall.visit call).Keeps
  leave : place.LetsStand

theorem KeepsAll.keepsOwn (keeps : place.KeepsAll) : place.KeepsOwn := by
  constructor
  · exact fun call visited => keeps (.visit call) (mem_calls.2 (.inl ⟨call, visited, rfl⟩))
  · exact fun call left => keeps (.leave call) (mem_calls.2 (.inr (.inr ⟨call, left, rfl⟩)))

theorem KeepsAll.child {child : Course} (keeps : place.KeepsAll)
    (isChild : child ∈ place.children) :
    child.KeepsAll := by
  intro call called
  exact keeps call (mem_calls.2 (.inr (.inl ⟨child, isChild, called⟩)))

theorem all_isKeep_of_outcomes {courses : List Course} {transforms : List Transform}
    (settled : outcomes? courses = some transforms)
    (each : ∀ course ∈ courses, ∀ transform, course.outcome? = some transform → transform = .keep) :
    transforms.all (·.isKeep) = true := by
  induction courses generalizing transforms with
  | nil =>
      cases settled
      rfl
  | cons course rest induction =>
      rcases outcomes?_cons_eq_some.1 settled with ⟨transform, others, outcome, later, rfl⟩
      rw [List.all_cons, each course List.mem_cons_self transform outcome,
        induction later fun other member => each other (List.mem_cons_of_mem course member)]
      rfl

theorem KeepsOwn.outcome {transform : Transform} (keeps : place.KeepsOwn)
    (settled : place.outcome? = some transform) :
    transform = .keep ∨ ∃ transforms, outcomes? place.children = some transforms ∧
      transform = .ofChange (!transforms.all (·.isKeep)) (place.node.after transforms) := by
  cases visited : place.visit with
  | none =>
      rw [outcome?_eq_settle, settle, visited] at settled
      cases settled
  | some call =>
      rcases keeps.visit call visited with ⟨answer, answered, kept⟩
      cases entered : place.entered? with
      | none =>
          have ends := entered
          rw [entered?, visited] at ends
          rw [outcome?_eq_settle, settle, visited, ends, Option.bind_some, answered] at settled
          cases settled
          exact .inl kept
      | some current =>
          rcases exists_outcomes entered settled with ⟨transforms, below⟩
          rcases entered?_eq_some.1 entered with ⟨other, same, visitedSame, answeredSame, -, goesOn⟩
          cases visited.symm.trans visitedSame
          cases answered.symm.trans answeredSame
          rw [kept] at goesOn
          cases goesOn
          rw [outcome?_of_letsStand entered visited answered below keeps.leave, kept] at settled
          cases settled
          exact .inr ⟨transforms, below, rfl⟩

theorem KeepsAll.outcome {transform : Transform} (keeps : course.KeepsAll)
    (settled : course.outcome? = some transform) : transform = .keep := by
  induction course using Course.induction generalizing transform with
  | step course induction =>
      rcases keeps.keepsOwn.outcome settled with kept | ⟨transforms, below, rfl⟩
      · exact kept
      · have all : transforms.all (·.isKeep) = true :=
          all_isKeep_of_outcomes below fun child isChild transform outcome =>
            induction child isChild (keeps.child isChild) outcome
        rw [all]
        rfl

theorem KeepsOwn.head {transform : Transform} (keeps : place.KeepsOwn)
    (settled : place.outcome? = some transform) :
    transform = .keep ∨ ∃ rebuilt, transform = .replace rebuilt ∧
      rebuilt.toNodeHead = { place.node.toNodeHead with origin := none } := by
  rcases keeps.outcome settled with kept | ⟨transforms, -, rfl⟩
  · exact .inl kept
  · cases all : transforms.all (·.isKeep) with
    | true => exact .inl rfl
    | false =>
        refine .inr ⟨_, rfl, ?_⟩
        rw [Node.after, all]
        rfl

theorem Records.of_walk_eq_ok {visitor : Visitor} {limits : WalkLimits} {root : Node}
    {session : Session} {result : Option Node}
    (records : course.Records visitor limits root session)
    (walked : (walk visitor limits root session).1 = .ok result) :
    ∃ transform, course.outcome? = some transform ∧
      transform.node? course.node = some (result.getD root) ∧
      (transform = .keep → result = none) := by
  rw [walk_fst] at walked
  rw [records.outcome, records.node]
  rcases ran : (Walk.walkRoot visitor limits root session).1 with error | ⟨⟩ | node | nodes
  · rw [ran] at walked
    cases walked
  · rw [ran] at walked
    cases walked
    exact ⟨.keep, rfl, rfl, fun _ => rfl⟩
  · rw [ran] at walked
    cases walked
    exact ⟨.replace node, rfl, rfl, by simp⟩
  · rw [ran] at walked
    cases walked

end Course

/-- A traversal by a visitor that does not look at where nodes were read does the same as the plain
one. And it shares: what no hook changed or took out afterwards is in the result as it was. -/
theorem walk_refines_plain {visitor : Visitor} (blind : visitor.Respects .origins)
    (limits : WalkLimits) (root : Node) (session : Session) :
    (hookCalls visitor limits root session).map Erasure.origins.hookCall =
        (PlainWalk.hookCalls visitor limits root session).map Erasure.origins.hookCall ∧
      Erasure.origins.outcome ((walk visitor limits root session).1.map (·.getD root)) =
        Erasure.origins.outcome (PlainWalk.walk visitor limits root session).1 ∧
      (walk visitor limits root session).2 = (PlainWalk.walk visitor limits root session).2 ∧
      ∃ course : Course, course.Records visitor limits root session ∧
        ∀ result, (walk visitor limits root session).1 = .ok result →
          (course.KeepsAll → result = none) ∧
          ∀ path place, course.at? path = some place → course.LetsStandAbove path →
            ∃ transform, place.outcome? = some transform ∧
              (∀ node, transform.node? place.node = some node →
                (result.getD root).descendant? (course.standing path) = some node) ∧
              (place.KeepsAll → transform = .keep) ∧
              (place.KeepsOwn → transform = .keep ∨ ∃ rebuilt, transform = .replace rebuilt ∧
                rebuilt.toNodeHead = { place.node.toNodeHead with origin := none }) := by
  rcases Erasure.walk_same limits blind rfl rfl with ⟨outcomes, sessions, calls⟩
  refine ⟨calls, outcomes, sessions, ?_⟩
  rcases Course.exists_records visitor limits root session with ⟨course, records⟩
  refine ⟨course, records, fun result walked => ?_⟩
  rcases records.of_walk_eq_ok walked with ⟨transform, settled, goesOn, kept⟩
  refine ⟨fun keeps => kept (keeps.outcome settled), fun path place found lets => ?_⟩
  rcases Course.descendant?_standing records.orderly settled goesOn found lets with
    ⟨other, outcome, stands⟩
  exact ⟨other, outcome, stands, fun keeps => keeps.outcome outcome, fun keeps =>
    keeps.head outcome⟩

/-- A name is changed in a file, and the block behind it is kept. -/
theorem rename_refines_plain :
    let edit : RenameIdentifier := ⟨"a", "b"⟩
    let root := Node.branch .sourceFile
      [.token .identifier "a", .branch .block [.token .identifier "c"]]
    let session := Session.start 1 false
    (hookCalls edit.visitor .none root session).map Erasure.origins.hookCall =
        (PlainWalk.hookCalls edit.visitor .none root session).map Erasure.origins.hookCall ∧
      Erasure.origins.outcome ((walk edit.visitor .none root session).1.map (·.getD root)) =
        Erasure.origins.outcome (PlainWalk.walk edit.visitor .none root session).1 ∧
      (walk edit.visitor .none root session).2 =
        (PlainWalk.walk edit.visitor .none root session).2 ∧
      ∃ (course : Course) (result : Node), course.Records edit.visitor .none root session ∧
        (walk edit.visitor .none root session).1 = .ok (some result) ∧
        (course.KeepsAll → some result = none) ∧
        ∀ path place, course.at? path = some place → course.LetsStandAbove path →
          ∃ transform, place.outcome? = some transform ∧
            (∀ node, transform.node? place.node = some node →
              result.descendant? (course.standing path) = some node) ∧
            (place.KeepsAll → transform = .keep) ∧
            (place.KeepsOwn → transform = .keep ∨ ∃ rebuilt, transform = .replace rebuilt ∧
              rebuilt.toNodeHead = { place.node.toNodeHead with origin := none }) := by
  intro edit root session
  have blind := edit.visitor_respects Erasure.origins_keepsText
  rcases walk_refines_plain blind .none root session with
    ⟨calls, outcomes, sessions, course, records, shares⟩
  have evaluated : ((walk edit.visitor .none root session).1.toOption.bind id).isSome = true := by
    decide +kernel
  rcases walked : (walk edit.visitor .none root session).1 with error | _ | result
  · rw [walked] at evaluated
    cases evaluated
  · rw [walked] at evaluated
    cases evaluated
  · rcases shares _ walked with ⟨untouched, kept⟩
    rw [walked] at outcomes
    exact ⟨calls, outcomes, sessions, course, result, records, rfl, untouched, kept⟩

end Verbatim
