import Verbatim.Proofs.Traversal.Renumbered
import Verbatim.Recipe.Run

/-! Recipes over a tree with other numbers. They come to the same result, but for the numbers in
it, and an error is one at the same element. -/

namespace Verbatim

namespace Renumbering

variable (anew : Renumbering)

def recipeError (error : RecipeError) : RecipeError :=
  { error with cause := anew.error error.cause }

def result (result : RecipeResult) : RecipeResult := { result with tree := anew.node result.tree }

/-- The other run of a recipe ends in the same way. -/
structure Reruns {α : Type} (values : α → α)
    (ran other : Except RecipeError α × Session) : Prop where
  result : other.1 = (ran.1.map values).mapError anew.recipeError
  session : anew.Sessions ran.2 other.2

variable {anew}

namespace Reruns

variable {α β : Type} {values : α → α} {later : β → β} {session other : Session}

theorem pure (sessions : anew.Sessions session other) {value same : α}
    (equal : values value = same) :
    anew.Reruns values ((Pure.pure value : RecipeM α).run.run session)
      ((Pure.pure same : RecipeM α).run.run other) :=
  ⟨congrArg Except.ok equal.symm, sessions⟩

theorem bind {first first' : ExceptT RecipeError (StateM Session) α}
    {next next' : α → ExceptT RecipeError (StateM Session) β}
    (reruns : anew.Reruns values (first.run.run session) (first'.run.run other))
    (each : ∀ (value : α) {middle middle' : Session}, anew.Sessions middle middle' →
      anew.Reruns later ((next value).run.run middle) ((next' (values value)).run.run middle')) :
    anew.Reruns later ((first >>= next).run.run session) ((first' >>= next').run.run other) := by
  simp only [ExceptT.run_bind, StateT.run_bind]
  generalize first.run.run session = ran at reruns ⊢
  generalize first'.run.run other = ran' at reruns ⊢
  rcases ran with ⟨outcome, middle⟩
  rcases ran' with ⟨outcome', middle'⟩
  rcases reruns with ⟨rfl, sessions⟩
  cases outcome with
  | error error => exact ⟨rfl, sessions⟩
  | ok value => exact each value sessions

end Reruns

end Renumbering

namespace Recipe

open Renumbering

variable {anew : Renumbering} {recipe : Recipe} {session other : Session}

theorem applyVisitor_reruns (limits : WalkLimits) {visitor : Visitor}
    (overlooks : visitor.OverlooksNumbers) (tree : Node) (sessions : anew.Sessions session other) :
    anew.Reruns (Option.map anew.node)
      ((recipe.applyVisitor limits visitor tree).run.run session)
      ((recipe.applyVisitor limits visitor (anew.node tree)).run.run other) := by
  have computed (tree : Node) (session : Session) :
      (recipe.applyVisitor limits visitor tree).run.run session =
        (((walk visitor limits tree session).1.mapError (⟨recipe.name, visitor.name, ·⟩)).map
          (Option.filter fun after => !after.contentEq tree),
          (walk visitor limits tree session).2) := by
    have got : (get : RecipeM Session).run.run session =
        (pure (.ok session, session) : Id _) := rfl
    rw [applyVisitor, ExceptT.run_bind, StateT.run_bind, got, pure_bind]
    simp only
    rcases walk visitor limits tree session with ⟨_ | _, after⟩ <;> rfl
  rcases walk_renumbered overlooks limits anew tree sessions with ⟨outcomes, after⟩
  rw [computed, computed, outcomes]
  refine ⟨?_, after⟩
  cases (walk visitor limits tree session).1 with
  | error cause => rfl
  | ok changed =>
      refine congrArg Except.ok ?_
      show (changed.map anew.node).filter (fun after => !after.contentEq (anew.node tree)) = _
      rw [Option.filter_map]
      have same : (fun after : Node => !after.contentEq (anew.node tree)) ∘ anew.node =
          fun after => !after.contentEq tree :=
        funext fun after => congrArg not (Node.contentEq_renumber anew.id after tree)
      rw [same]

theorem cycle_reruns (limits : WalkLimits) {visitors : List Visitor}
    (overlook : ∀ visitor ∈ visitors, visitor.OverlooksNumbers) (tree : Node)
    (sessions : anew.Sessions session other) :
    anew.Reruns (Option.map anew.node) ((recipe.cycle limits visitors tree).run.run session)
      ((recipe.cycle limits visitors (anew.node tree)).run.run other) := by
  induction visitors generalizing tree session other with
  | nil => exact .pure sessions rfl
  | cons visitor rest induction =>
      rw [cycle, cycle]
      refine (applyVisitor_reruns limits (overlook visitor List.mem_cons_self) tree sessions).bind
        fun changed middle middle' applied => ?_
      have later := induction (fun other member => overlook other (List.mem_cons_of_mem _ member))
        (changed.getD tree) applied
      rw [← Option.getD_map anew.node] at later
      refine later.bind fun after ended ended' cycled => .pure cycled ?_
      cases after <;> rfl

theorem repeatCycle_reruns (limits : WalkLimits)
    (overlook : ∀ visitor ∈ recipe.visitors, visitor.OverlooksNumbers) (left cycles : Nat)
    (changed : Bool) (tree : Node) (sessions : anew.Sessions session other) :
    anew.Reruns anew.result
      ((recipe.repeatCycle limits left cycles changed tree).run.run session)
      ((recipe.repeatCycle limits left cycles changed (anew.node tree)).run.run other) := by
  induction left generalizing cycles changed tree session other with
  | zero => exact .pure sessions rfl
  | succ left induction =>
      rw [repeatCycle, repeatCycle]
      refine (cycle_reruns limits overlook tree sessions).bind fun after middle middle' cycled => ?_
      cases after with
      | none => exact .pure cycled rfl
      | some after => exact induction (cycles + 1) true after cycled

theorem runFrom_reruns (limits : WalkLimits)
    (overlook : ∀ visitor ∈ recipe.visitors, visitor.OverlooksNumbers) (tree : Node)
    (sessions : anew.Sessions session other) :
    anew.Reruns anew.result ((recipe.runFrom limits tree).run.run session)
      ((recipe.runFrom limits (anew.node tree)).run.run other) :=
  repeatCycle_reruns limits overlook _ 0 false tree sessions

end Recipe

end Verbatim
