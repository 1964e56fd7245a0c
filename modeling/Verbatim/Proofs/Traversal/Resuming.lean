import Verbatim.Proofs.Traversal.Courses

/-! Traversals by two visitors, of which one goes on where the other one stops. Up to there they do
the same. -/

namespace Verbatim

namespace Visitor

/-- The visitor answers as the other one does, but where that one stops it may go on, with or
without the children. -/
structure Resumes (visitor other : Visitor) : Prop where
  visit : ∀ node trail session,
    (visitor.visit node trail).run.run session = (other.visit node trail).run.run session ∨
      ∃ transform control after,
        (other.visit node trail).run.run session = (.ok ⟨transform, .stop⟩, after) ∧
        (visitor.visit node trail).run.run session = (.ok ⟨transform, control⟩, after)
  leave : ∀ node, visitor.leave node = other.leave node

end Visitor

namespace Walk

/-- The first calls end with one that stops; the others may go on from there, as the same call tells
with another control. The last calls come first. -/
def Parted (calls others : List HookCall) : Prop :=
  ∃ before call transform control, calls = .visit call :: before ∧
    call.answer = .ok ⟨transform, .stop⟩ ∧
    .visit { call with answer := .ok ⟨transform, control⟩ } :: before <:+ others

def Lockstep {α : Type} (first second : Except WalkError α × WalkState) : Prop :=
  (first = second ∧ first.2.stopped = false) ∨
    (first.2.stopped = true ∧ Parted first.2.calls second.2.calls)

theorem Parted.extend {calls others longer : List HookCall} (parted : Parted calls others)
    (more : others <:+ longer) : Parted calls longer := by
  rcases parted with ⟨before, call, transform, control, same, stops, goesOn⟩
  exact ⟨before, call, transform, control, same, stops, goesOn.trans more⟩

theorem followed_extends {α β : Type} {first : Except WalkError α × WalkState}
    {next : α → WalkState → Except WalkError β × WalkState}
    (more : ∀ value after, after.calls <:+ (next value after).2.calls) :
    first.2.calls <:+ (followed first next).2.calls := by
  rcases first with ⟨error | value, after⟩
  · exact List.suffix_refl _
  · exact more value after

theorem Lockstep.follow {α β : Type}
    {first second : Except WalkError α × WalkState}
    {next nextOther : α → WalkState → Except WalkError β × WalkState}
    (lockstep : Lockstep first second)
    (same : ∀ (value : α) (after : WalkState), after.stopped = false →
      Lockstep (next value after) (nextOther value after))
    (rests : ∀ (value : α) (after : WalkState), after.stopped = true →
      (next value after).2.stopped = true ∧ (next value after).2.calls = after.calls)
    (more : ∀ (value : α) (after : WalkState), after.calls <:+ (nextOther value after).2.calls) :
    Lockstep (followed first next) (followed second nextOther) := by
  rcases lockstep with ⟨rfl, going⟩ | ⟨stopped, parted⟩
  · rcases first with ⟨error | value, after⟩
    · exact .inl ⟨rfl, going⟩
    · exact same value after going
  · have longer : Parted first.2.calls (followed second nextOther).2.calls :=
      parted.extend (followed_extends more)
    rcases first with ⟨error | value, after⟩
    · exact .inr ⟨stopped, longer⟩
    · rcases rests value after stopped with ⟨still, calls⟩
      refine .inr ⟨still, ?_⟩
      rw [followed_ok, calls]
      exact longer

section

variable {visitor other : Visitor} {state : WalkState} {parent node : Node} {changed descend : Bool}
  {walkChild walkOther : Node → WalkM Transform} {earlier : List Transform}

/-! ## Calls are only added -/

def Extends (walkChild : Node → WalkM Transform) : Prop :=
  ∀ child state, state.calls <:+ (runAt (walkChild child) state).2.calls

theorem goThrough_extends (each : Extends walkChild) (earlier : List Transform) (rest : List Node)
    (state : WalkState) :
    state.calls <:+ (runAt (goThrough walkChild parent earlier rest) state).2.calls := by
  induction rest generalizing earlier state with
  | nil => exact List.suffix_refl _
  | cons child rest induction =>
      cases going : state.stopped with
      | true =>
          simp only [runAt_goThrough_stopped going]
          exact List.suffix_refl _
      | false =>
          rw [runAt_goThrough_cons going]
          have below : state.calls <:+ (runAt (walkChild child) (state.down child)).2.calls :=
            each child (state.down child)
          refine below.trans (followed_extends fun transform after => ?_)
          exact induction (earlier ++ [transform]) ((after.back state.trail).showing _)

theorem lookAgain_extends (result : Transform) (state : WalkState) :
    state.calls <:+ (runAt (lookAgain visitor node result) state).2.calls := by
  rw [runAt_lookAgain rfl]
  exact List.suffix_cons _ _

theorem finishNode_extends (each : Extends walkChild) (state : WalkState) :
    state.calls <:+ (runAt (finishNode visitor walkChild node changed descend) state).2.calls := by
  cases descend with
  | false =>
      rw [runAt_finishNode_skip]
      exact lookAgain_extends _ (state.showing node)
  | true =>
      have below : state.calls <:+
          (runAt (goThrough walkChild node [] node.children) (state.showing node)).2.calls :=
        goThrough_extends each [] node.children (state.showing node)
      rw [runAt_finishNode_descend]
      refine below.trans (followed_extends fun transforms after => ?_)
      split
      · exact List.suffix_refl _
      · exact lookAgain_extends _ after

theorem walkNode_extends (visitor : Visitor) (limits : WalkLimits) (depth : Nat) :
    Extends (walkNode visitor limits depth) := by
  induction depth with
  | zero => exact fun _ _ => List.suffix_refl _
  | succ depth induction =>
      intro node state
      rw [runAt_walkNode_succ]
      cases refusal? limits state.session with
      | some error => exact List.suffix_refl _
      | none =>
          have below : state.calls <:+ (runAt (visit visitor node) state).2.calls := by
            rw [visit, runAt_call]
            exact List.suffix_cons _ _
          refine below.trans (followed_extends fun answer after => ?_)
          split
          · exact List.suffix_refl _
          · split
            · exact List.suffix_refl _
            · exact finishNode_extends induction after

/-! ## Both visitors do the same -/

section

variable (goesOn : Extends walkOther)
  (each : ∀ (child : Node) (state : WalkState), state.stopped = false →
    Lockstep (runAt (walkChild child) state) (runAt (walkOther child) state))

include goesOn each in
theorem goThrough_lockstep (rest : List Node) (going : state.stopped = false) :
    Lockstep (runAt (goThrough walkChild parent earlier rest) state)
      (runAt (goThrough walkOther parent earlier rest) state) := by
  induction rest generalizing earlier state with
  | nil => exact .inl ⟨rfl, going⟩
  | cons child rest induction =>
      rw [runAt_goThrough_cons going, runAt_goThrough_cons going]
      refine (each child (state.down child) going).follow ?_ ?_ ?_
      · exact fun transform after still => induction still
      · intro transform after stopped
        rw [runAt_goThrough_stopped (by simpa using stopped)]
        exact ⟨stopped, rfl⟩
      · exact fun transform after => goThrough_extends goesOn (earlier ++ [transform]) rest
          ((after.back state.trail).showing _)

include goesOn each in
theorem finishNode_lockstep (leaves : ∀ node, other.leave node = visitor.leave node)
    (going : state.stopped = false) :
    Lockstep (runAt (finishNode visitor walkChild node changed descend) state)
      (runAt (finishNode other walkOther node changed descend) state) := by
  have second (node : Node) (result : Transform) (state : WalkState) :
      runAt (lookAgain other node result) state = runAt (lookAgain visitor node result) state := by
    rw [lookAgain, lookAgain, leave, leave, leaves]
  cases descend with
  | false =>
      rw [runAt_finishNode_skip, runAt_finishNode_skip, second]
      refine .inl ⟨rfl, ?_⟩
      rw [runAt_lookAgain rfl]
      exact going
  | true =>
      rw [runAt_finishNode_descend, runAt_finishNode_descend]
      have below : Lockstep
          (runAt (goThrough walkChild node [] node.children) (state.showing node))
          (runAt (goThrough walkOther node [] node.children) (state.showing node)) :=
        goThrough_lockstep goesOn each node.children going
      refine below.follow ?_ ?_ ?_
      · intro transforms after still
        rw [if_neg (by simp [still]), if_neg (by simp [still]), second]
        refine .inl ⟨rfl, ?_⟩
        rw [runAt_lookAgain rfl]
        exact still
      · intro transforms after stopped
        rw [if_pos stopped]
        exact ⟨stopped, rfl⟩
      · intro transforms after
        split
        · exact List.suffix_refl _
        · exact lookAgain_extends _ after

end

/-- A visitor and one that goes on where it stops walk a node in step. -/
theorem walkNode_lockstep (resumes : other.Resumes visitor) (limits : WalkLimits) (depth : Nat)
    (node : Node) (state : WalkState) (going : state.stopped = false) :
    Lockstep (runAt (walkNode visitor limits depth node) state)
      (runAt (walkNode other limits depth node) state) := by
  induction depth generalizing node state with
  | zero => exact .inl ⟨rfl, going⟩
  | succ depth induction =>
      have goesOn := walkNode_extends other limits depth
      rw [runAt_walkNode_succ, runAt_walkNode_succ]
      cases refusal? limits state.session with
      | some error => exact .inl ⟨rfl, going⟩
      | none =>
          simp only [visit, runAt_call]
          rcases resumes.visit node state.trail state.session with
            same | ⟨transform, control, session, stops, answered⟩
          · rw [same]
            rcases answered : (visitor.visit node state.trail).run.run state.session with
              ⟨error | answer, session⟩
            · simp only [mapError_error, followed_error]
              exact .inl ⟨rfl, going⟩
            · simp only [mapError_ok, followed_ok]
              by_cases ends : answer.control = .stop
              · rw [if_pos ends, if_pos ends]
                rcases answer with ⟨transform, control⟩
                cases ends
                exact .inr ⟨rfl, state.calls, _, transform, .stop, rfl, rfl, List.suffix_refl _⟩
              · rw [if_neg ends, if_neg ends]
                split
                · exact .inl ⟨rfl, going⟩
                · exact finishNode_lockstep goesOn induction resumes.leave going
          · rw [stops, answered]
            simp only [mapError_ok, followed_ok, if_true]
            -- here they part, and all that the other visitor still does only adds calls
            refine .inr ⟨rfl, state.calls, _, transform, control, rfl, rfl, ?_⟩
            split
            · exact List.suffix_refl _
            · split
              · exact List.suffix_refl _
              · exact finishNode_extends goesOn (state.after _ _)

end

end Walk

end Verbatim
