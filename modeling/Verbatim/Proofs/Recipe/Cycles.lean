import Verbatim.Proofs.Edits.Respecting
import Verbatim.Proofs.Traversal.Plain
import Verbatim.Proofs.Tree.Contents
import Verbatim.Recipe.Run

/-! Recipes and the walks of their visitors. A recipe goes on with the old tree when a visitor
has not changed the content. For visitors that look at the content only that makes no difference
to what is found in the end; and once nothing changes any more, nothing would ever change. -/

namespace Verbatim

/-! ## Content -/

namespace Node

theorem content_node_eq (node : Node) : Erasure.content.node node = node.content := by
  induction node using Node.induction with
  | step node induction =>
      rcases node with ⟨head, children⟩
      rw [Erasure.node_eq, Erasure.nodes_eq_map, content_mk]
      exact congrArg (Node.mk _) (List.map_congr_left induction)

theorem contentEq_iff {first second : Node} :
    first.contentEq second = true ↔ Erasure.content.node first = Erasure.content.node second := by
  rw [content_node_eq, content_node_eq, contentEq_iff_content]

end Node

section

variable {visitor : Visitor} {limits : WalkLimits} {tree other : Node}
    {session session' after : Session}
  {changed : Option Node}

theorem accepted_of_walk_ok (walked : walk visitor limits tree session = (.ok changed, after)) :
    Walk.refusal? limits session = none := by
  cases refused : Walk.refusal? limits session with
  | none => rfl
  | some error =>
      have height : ∃ below, tree.height + limits.spareDepth = below + 1 := by
        rcases tree with ⟨head, children⟩
        exact ⟨Node.heightOfAll children + limits.spareDepth, by rw [Node.height]; omega⟩
      rcases height with ⟨below, height⟩
      have ended : (Walk.walkRoot visitor limits tree session).1 = .error (.atNode tree error) := by
        rw [Walk.walkRoot, height, Walk.runAt_walkNode_succ,
          show Walk.refusal? limits (Walk.start tree session).session = some error from refused]
      have failed := walk_fst visitor limits tree session
      rw [ended, walked] at failed
      cases failed

theorem cancelled_of_walk_ok (walked : walk visitor limits tree session = (.ok changed, after)) :
    session.cancelled = false := by
  have accepted := accepted_of_walk_ok walked
  rw [← Bool.not_eq_true]
  intro cancelled
  rw [Walk.refusal?, if_pos cancelled] at accepted
  cases accepted

theorem expired_of_walk_ok (walked : walk visitor limits tree session = (.ok changed, after)) :
    limits.expired = false := by
  have accepted := accepted_of_walk_ok walked
  rw [← Bool.not_eq_true]
  intro expired
  rw [Walk.refusal?, if_neg (by simp [cancelled_of_walk_ok walked]), if_pos expired] at accepted
  cases accepted

theorem walk_of_content (respects : visitor.Respects .content)
    (same : Erasure.content.node other = Erasure.content.node tree)
    (cancelled : session'.cancelled = session.cancelled)
    (walked : walk visitor limits tree session = (.ok changed, after)) :
    ∃ changed' after', walk visitor limits other session' = (.ok changed', after') ∧
      Erasure.content.node (changed'.getD other) = Erasure.content.node (changed.getD tree) ∧
      after'.cancelled = after.cancelled := by
  have started (first second : Session) (cancelled : first.cancelled = second.cancelled) :
      Erasure.content.session { first with board := .empty } =
        Erasure.content.session { second with board := .empty } := by
    have seen (session : Session) : Erasure.content.session { session with board := .empty } =
        ⟨.empty, 0, session.cancelled, []⟩ := rfl
    rw [seen, seen, cancelled]
  rcases Erasure.walks_same limits respects same (started session' session cancelled) with
    ⟨outcomes, sessions⟩
  rw [walked] at outcomes sessions
  rcases walkedOther : walk visitor limits other session' with ⟨error | changed', after'⟩
  · rw [walkedOther] at outcomes
    cases outcomes
  · rw [walkedOther] at outcomes sessions
    exact ⟨changed', after', rfl, Except.ok.inj outcomes,
      Erasure.cancelled_of_session sessions⟩

end

/-! ## Walks in turn -/

/-- The output of a walk has the content of its input. -/
def Unchanged (step : Node × Node) : Prop := step.2.contentEq step.1 = true

theorem unchanged_iff {step : Node × Node} :
    Unchanged step ↔ Erasure.content.node step.2 = Erasure.content.node step.1 := Node.contentEq_iff

/-- Walks by visitors one after the other, each through what the one before it left, whatever its
content. The steps are the trees that each walk was given and has left. -/
inductive Walks (limits : WalkLimits) :
    List Visitor → Node → Session → List (Node × Node) → Node → Session → Prop
  | nil (tree : Node) (session : Session) : Walks limits [] tree session [] tree session
  | cons {visitor : Visitor} {rest : List Visitor} {tree : Node} {session : Session}
      {changed : Option Node} {middle : Session} {steps : List (Node × Node)} {final : Node}
      {after : Session} :
      walk visitor limits tree session = (.ok changed, middle) →
      Walks limits rest (changed.getD tree) middle steps final after →
      Walks limits (visitor :: rest) tree session ((tree, changed.getD tree) :: steps) final after

namespace Walks

variable {limits : WalkLimits} {visitors others : List Visitor} {tree middle final other : Node}
  {session session' between after : Session} {steps later : List (Node × Node)}

theorem append (walks : Walks limits visitors tree session steps middle between)
    (next : Walks limits others middle between later final after) :
    Walks limits (visitors ++ others) tree session (steps ++ later) final after := by
  induction walks with
  | nil tree session => exact next
  | cons walked rest induction => exact .cons walked (induction next)

theorem length_eq (walks : Walks limits visitors tree session steps final after) :
    steps.length = visitors.length := by
  induction walks with
  | nil tree session => rfl
  | cons walked rest induction => rw [List.length_cons, List.length_cons, induction]

theorem not_cancelled (walks : Walks limits visitors tree session steps final after)
    (some : visitors ≠ []) : session.cancelled = false := by
  cases walks with
  | nil => exact absurd rfl some
  | cons walked rest => exact cancelled_of_walk_ok walked

theorem content_of_unchanged (walks : Walks limits visitors tree session steps final after)
    (unchanged : ∀ step ∈ steps, Unchanged step) :
    Erasure.content.node final = Erasure.content.node tree := by
  induction walks with
  | nil tree session => rfl
  | @cons visitor rest tree session changed middle steps final after walked next induction =>
      rw [induction fun step member => unchanged step (List.mem_cons_of_mem _ member)]
      exact unchanged_iff.1 (unchanged (tree, changed.getD tree) List.mem_cons_self)

theorem unchanged_of_mem (walks : Walks limits visitors tree session steps final after)
    (respects : ∀ visitor ∈ visitors, visitor.Respects .content)
    (unchanged : ∀ step ∈ steps, Unchanged step)
    (same : Erasure.content.node other = Erasure.content.node tree)
    (cancelled : session'.cancelled = false) :
    ∀ visitor ∈ visitors, ∃ changed ended, walk visitor limits other session' =
      (.ok changed, ended) ∧
      Unchanged (other, changed.getD other) := by
  induction walks with
  | nil tree session => exact fun visitor member => absurd member List.not_mem_nil
  | @cons visitor rest tree session changed middle steps final after walked next induction =>
      have first : Erasure.content.node (changed.getD tree) = Erasure.content.node tree :=
        unchanged_iff.1 (unchanged (tree, changed.getD tree) List.mem_cons_self)
      intro next member
      rcases List.mem_cons.1 member with rfl | member
      · rcases walk_of_content (respects next List.mem_cons_self) same
          (cancelled.trans (cancelled_of_walk_ok walked).symm) walked with
          ⟨changed', ended, walkedOther, sameAfter, -⟩
        refine ⟨changed', ended, walkedOther, unchanged_iff.2 ?_⟩
        rw [sameAfter, first, same]
      · exact induction (fun visitor isLater => respects visitor (List.mem_cons_of_mem _ isLater))
          (fun step isLater => unchanged step (List.mem_cons_of_mem _ isLater))
          (same.trans first.symm) next member

end Walks

/-! ## Recipes -/

theorem Iteration.exists_maxCycles_eq (iteration : Iteration) :
    ∃ left, iteration.maxCycles = left + 1 := by
  cases iteration with
  | singlePass => exact ⟨0, rfl⟩
  | untilStable cycles => exact ⟨max cycles 1 - 1, by rw [maxCycles]; omega⟩

namespace Recipe

variable {recipe : Recipe} {limits : WalkLimits} {visitors : List Visitor} {tree other : Node}
  {session session' after : Session} {changed : Option Node}

theorem bind_eq_ok {ε σ α β : Type} {first : ExceptT ε (StateM σ) α}
    {next : α → ExceptT ε (StateM σ) β} {state end' : σ} {value : β} :
    (first >>= next).run.run state = (.ok value, end') ↔
      ∃ result middle, first.run.run state = (.ok result, middle) ∧
        (next result).run.run middle = (.ok value, end') := by
  simp only [ExceptT.run_bind, StateT.run_bind]
  rcases first.run.run state with ⟨error | result, middle⟩
  · constructor
    · intro failed
      cases failed
    · rintro ⟨_, _, failed, -⟩
      cases failed
  · constructor
    · exact fun succeeded => ⟨result, middle, rfl, succeeded⟩
    · rintro ⟨_, _, same, succeeded⟩
      cases same
      exact succeeded

theorem applyVisitor_eq_ok {visitor : Visitor} :
    (recipe.applyVisitor limits visitor tree).run.run session = (.ok changed, after) ↔
      ∃ left, walk visitor limits tree session = (.ok left, after) ∧
        changed = left.filter fun new => !new.contentEq tree := by
  rw [applyVisitor, bind_eq_ok]
  constructor
  · rintro ⟨state, middle, got, ran⟩
    cases got
    rcases walked : walk visitor limits tree session with ⟨error | left, between⟩
    · rw [walked] at ran
      cases ran
    · rw [walked] at ran
      cases ran
      exact ⟨left, rfl, rfl⟩
  · rintro ⟨left, walked, rfl⟩
    refine ⟨session, session, rfl, ?_⟩
    rw [walked]
    rfl

theorem filter_eq_none_iff (tree : Node) (changed : Option Node) :
    (changed.filter fun new => !new.contentEq tree) = none ↔
      Unchanged (tree, changed.getD tree) := by
  cases changed with
  | none => simp [unchanged_iff]
  | some new => simp [Unchanged]

theorem content_getD_filter (tree : Node) (changed : Option Node) :
    Erasure.content.node ((changed.filter fun new => !new.contentEq tree).getD tree) =
      Erasure.content.node (changed.getD tree) := by
  cases found : changed.filter fun new => !new.contentEq tree with
  | none => exact (unchanged_iff.1 ((filter_eq_none_iff tree changed).1 found)).symm
  | some new =>
      rw [(Option.filter_eq_some_iff.1 found).1]

/-- A cycle does as the walks in turn, from any tree of the same content. -/
theorem walks_of_cycle (respects : ∀ visitor ∈ visitors, visitor.Respects .content)
    (same : Erasure.content.node other = Erasure.content.node tree)
    (cancelled : session'.cancelled = session.cancelled)
    (ran : (recipe.cycle limits visitors tree).run.run session = (.ok changed, after)) :
    ∃ steps final ended, Walks limits visitors other session' steps final ended ∧
      Erasure.content.node final = Erasure.content.node (changed.getD tree) ∧
      ended.cancelled = after.cancelled ∧ (changed = none ↔ ∀ step ∈ steps, Unchanged step) := by
  induction visitors generalizing tree other session session' changed after with
  | nil =>
      cases ran
      exact ⟨[], other, session', .nil other session', same, cancelled, by simp⟩
  | cons visitor rest induction =>
      rw [cycle] at ran
      rcases bind_eq_ok.1 ran with ⟨first, middle, applied, ran⟩
      rcases bind_eq_ok.1 ran with ⟨rests, ended, cycled, finished⟩
      cases finished
      rcases applyVisitor_eq_ok.1 applied with ⟨left, walked, rfl⟩
      rcases walk_of_content (respects visitor List.mem_cons_self) same cancelled walked with
        ⟨leftOther, betweenOther, walkedOther, sameLeft, cancelledBetween⟩
      rcases induction (fun later member => respects later (List.mem_cons_of_mem _ member))
        (sameLeft.trans (content_getD_filter tree left).symm) cancelledBetween cycled with
        ⟨steps, final, endedOther, walks, sameFinal, cancelledEnd, nothing⟩
      -- the recipe goes on with its own tree, the walks with theirs; their contents stay the same
      refine ⟨_, final, endedOther, .cons walkedOther walks, ?_, cancelledEnd, ?_⟩
      · rw [sameFinal]
        cases rests with
        | none =>
            cases left.filter fun new => !new.contentEq tree <;> rfl
        | some new => rfl
      · have sameStep : Unchanged (other, leftOther.getD other) ↔
            Unchanged (tree, left.getD tree) := by
          rw [unchanged_iff, unchanged_iff, sameLeft, same]
        rw [List.forall_mem_cons, sameStep, ← filter_eq_none_iff, ← nothing]
        cases rests <;> cases left.filter fun new => !new.contentEq tree <;> simp

theorem cycle_eq_none {steps : List (Node × Node)} {final : Node}
    (walks : Walks limits visitors tree session steps final after)
    (respects : ∀ visitor ∈ visitors, visitor.Respects .content)
    (unchanged : ∀ step ∈ steps, Unchanged step)
    (same : Erasure.content.node other = Erasure.content.node tree)
    (cancelled : session'.cancelled = session.cancelled) :
    ∃ ended, (recipe.cycle limits visitors other).run.run session' = (.ok none, ended) := by
  induction walks generalizing session' with
  | nil tree session => exact ⟨session', rfl⟩
  | @cons visitor rest tree session changed middle steps final after walked next induction =>
      have first : Erasure.content.node (changed.getD tree) = Erasure.content.node tree :=
        unchanged_iff.1 (unchanged (tree, changed.getD tree) List.mem_cons_self)
      rcases walk_of_content (respects visitor List.mem_cons_self) same cancelled walked with
        ⟨left, between, walkedOther, sameLeft, cancelledBetween⟩
      rcases induction (fun later member => respects later (List.mem_cons_of_mem _ member))
        (fun step member => unchanged step (List.mem_cons_of_mem _ member))
        (same.trans first.symm) cancelledBetween with ⟨ended, rests⟩
      have stays : (left.filter fun new => !new.contentEq other) = none := by
        rw [filter_eq_none_iff, unchanged_iff, sameLeft, first, same]
      have applied : (recipe.applyVisitor limits visitor other).run.run session' =
          (.ok none, between) := applyVisitor_eq_ok.2 ⟨left, walkedOther, stays.symm⟩
      refine ⟨ended, ?_⟩
      rw [cycle]
      exact bind_eq_ok.2 ⟨none, between, applied, bind_eq_ok.2 ⟨none, ended, rests, rfl⟩⟩

variable {left cycles : Nat} {before : Bool} {result : RecipeResult}

theorem eq_of_repeatCycle_zero
    (ran : (recipe.repeatCycle limits 0 cycles before tree).run.run session = (.ok result, after)) :
    result = ⟨tree, before, cycles, decide (recipe.iteration = .singlePass)⟩ := by
  cases ran
  rfl

theorem cases_of_repeatCycle
    (ran : (recipe.repeatCycle limits (left + 1) cycles before tree).run.run session =
      (.ok result, after)) :
    ∃ changed middle,
      (recipe.cycle limits recipe.visitors tree).run.run session = (.ok changed, middle) ∧
      ((changed = none ∧ result = ⟨tree, before, cycles + 1, true⟩) ∨
        ∃ new, changed = some new ∧
          (recipe.repeatCycle limits left (cycles + 1) true new).run.run middle =
            (.ok result, after)) := by
  rw [repeatCycle] at ran
  rcases bind_eq_ok.1 ran with ⟨changed, middle, cycled, ran⟩
  refine ⟨changed, middle, cycled, ?_⟩
  cases changed with
  | none =>
      cases ran
      exact .inl ⟨rfl, rfl⟩
  | some new => exact .inr ⟨new, rfl, ran⟩

theorem changed_of_repeatCycle
    (ran : (recipe.repeatCycle limits left cycles true tree).run.run session =
      (.ok result, after)) :
    result.changed = true := by
  induction left generalizing cycles tree session with
  | zero => rw [eq_of_repeatCycle_zero ran]
  | succ left induction =>
      rcases cases_of_repeatCycle ran with ⟨changed, middle, -, ⟨-, rfl⟩ | ⟨new, -, later⟩⟩
      · rfl
      · exact induction later

theorem tree_eq_of_not_changed
    (ran : (recipe.repeatCycle limits left cycles before tree).run.run session =
      (.ok result, after))
    (unchanged : result.changed = false) : result.tree = tree := by
  cases left with
  | zero => rw [eq_of_repeatCycle_zero ran]
  | succ left =>
      rcases cases_of_repeatCycle ran with ⟨changed, middle, -, ⟨-, rfl⟩ | ⟨new, -, later⟩⟩
      · rfl
      · rw [changed_of_repeatCycle later] at unchanged
        cases unchanged

theorem changed_of_expired (expired : limits.expired = true)
    (ran : recipe.run limits session tree = .ok result) : result.changed = false := by
  rcases recipe.iteration.exists_maxCycles_eq with ⟨left, cycles⟩
  rcases run : (recipe.runFrom limits tree).run.run session with ⟨answer, after⟩
  obtain rfl : answer = .ok result := (congrArg Prod.fst run).symm.trans ran
  rw [runFrom, cycles] at run
  rcases cases_of_repeatCycle run with ⟨changed, middle, cycled, ⟨-, rfl⟩ | ⟨new, rfl, -⟩⟩
  · rfl
  · cases visitors : recipe.visitors with
    | nil =>
        rw [visitors] at cycled
        cases cycled
    | cons visitor rest =>
        rw [visitors, cycle] at cycled
        rcases bind_eq_ok.1 cycled with ⟨first, between, applied, -⟩
        rcases applyVisitor_eq_ok.1 applied with ⟨walked, succeeded, -⟩
        rw [expired_of_walk_ok succeeded] at expired
        cases expired

/-- How a run of `count + 1` cycles goes: as walks in turn from a tree, the last cycle being told
apart. At most `left + 1` cycles were allowed. -/
structure Cycled (recipe : Recipe) (limits : WalkLimits) (left : Nat) (before : Bool) (tree : Node)
    (session : Session) (result : RecipeResult) (count : Nat) (earlier last : List (Node × Node))
    (final : Node) : Prop where
  walks : ∃ middle between ended,
    Walks limits (List.replicate count recipe.visitors).flatten
      tree session earlier middle between ∧
      Walks limits recipe.visitors middle between last final ended
  count_le : count ≤ left
  content : Erasure.content.node final = Erasure.content.node result.tree
  changed : result.changed = true ↔ before = true ∨ ∃ step ∈ earlier ++ last, ¬ Unchanged step
  stable : (∀ step ∈ last, Unchanged step) → result.converged = true
  capped : (∃ step ∈ last, ¬ Unchanged step) →
    count = left ∧ result.converged = decide (recipe.iteration = .singlePass)

section

variable {steps earlier last : List (Node × Node)} {final next : Node} {between ended : Session}
  {count : Nat}

theorem cycled_of_unchanged (walks : Walks limits recipe.visitors other session steps final ended)
    (unchanged : ∀ step ∈ steps, Unchanged step)
    (content : Erasure.content.node final = Erasure.content.node tree) :
    recipe.Cycled limits left before other session ⟨tree, before, cycles, true⟩ 0
      [] steps final where
  walks := ⟨other, session, ended, .nil other session, walks⟩
  count_le := Nat.zero_le left
  content := content
  changed := by
    rw [List.nil_append]
    constructor
    · exact .inl
    · rintro (changed | ⟨step, member, changed⟩)
      · exact changed
      · exact absurd (unchanged step member) changed
  stable _ := rfl
  capped := fun ⟨step, member, changed⟩ => absurd (unchanged step member) changed

theorem cycled_of_changed (walks : Walks limits recipe.visitors other session steps final ended)
    (changed : ∃ step ∈ steps, ¬ Unchanged step)
    (content : Erasure.content.node final = Erasure.content.node tree) :
    recipe.Cycled limits 0 before other session
      ⟨tree, true, cycles, decide (recipe.iteration = .singlePass)⟩ 0 [] steps final where
  walks := ⟨other, session, ended, .nil other session, walks⟩
  count_le := Nat.le_refl 0
  content := content
  changed := ⟨fun _ => .inr changed, fun _ => rfl⟩
  stable unchanged := by
    rcases changed with ⟨step, member, changed⟩
    exact absurd (unchanged step member) changed
  capped _ := ⟨rfl, rfl⟩

theorem Cycled.behind (walks : Walks limits recipe.visitors other session steps next between)
    (changed : ∃ step ∈ steps, ¬ Unchanged step)
    (cycled : recipe.Cycled limits left true next between result count earlier last final) :
    recipe.Cycled limits (left + 1) before other session result (count + 1) (steps ++ earlier) last
      final where
  walks := by
    rcases cycled.walks with ⟨middle, start, ended, first, second⟩
    refine ⟨middle, start, ended, ?_, second⟩
    rw [List.replicate_succ, List.flatten_cons]
    exact walks.append first
  count_le := Nat.succ_le_succ cycled.count_le
  content := cycled.content
  changed := by
    refine iff_of_true (cycled.changed.2 (.inl rfl)) (.inr ?_)
    rcases changed with ⟨step, member, changed⟩
    exact ⟨step, by simp [member], changed⟩
  stable := cycled.stable
  capped remains := ⟨congrArg Nat.succ (cycled.capped remains).1, (cycled.capped remains).2⟩

end

/-- A run of cycles does as walks in turn, from any tree of the same content. -/
theorem exists_cycled (respects : ∀ visitor ∈ recipe.visitors, visitor.Respects .content)
    (same : Erasure.content.node other = Erasure.content.node tree)
    (cancelled : session'.cancelled = session.cancelled)
    (ran : (recipe.repeatCycle limits (left + 1) cycles before tree).run.run session =
      (.ok result, after)) :
    ∃ count earlier last final, result.cycles = cycles + count + 1 ∧
      recipe.Cycled limits left before other session' result count earlier last final := by
  induction left generalizing cycles before tree other session session' with
  | zero =>
      rcases cases_of_repeatCycle ran with ⟨changed, middle, cycled, ends⟩
      rcases walks_of_cycle respects same cancelled cycled with
        ⟨steps, final, ended, walks, sameFinal, cancelledEnd, nothing⟩
      refine ⟨0, [], steps, final, ?_⟩
      rcases ends with ⟨rfl, rfl⟩ | ⟨new, rfl, last⟩
      · exact ⟨rfl, cycled_of_unchanged walks (nothing.1 rfl) sameFinal⟩
      · have changed : ∃ step ∈ steps, ¬ Unchanged step := by
          simpa using mt nothing.2
        rw [eq_of_repeatCycle_zero last]
        exact ⟨rfl, cycled_of_changed walks changed sameFinal⟩
  | succ left induction =>
      rcases cases_of_repeatCycle ran with ⟨changed, middle, cycled, ends⟩
      rcases walks_of_cycle respects same cancelled cycled with
        ⟨steps, final, ended, walks, sameFinal, cancelledEnd, nothing⟩
      rcases ends with ⟨rfl, rfl⟩ | ⟨new, rfl, later⟩
      · exact ⟨0, [], steps, final, rfl, cycled_of_unchanged walks (nothing.1 rfl) sameFinal⟩
      · have changed : ∃ step ∈ steps, ¬ Unchanged step := by
          simpa using mt nothing.2
        rcases induction sameFinal cancelledEnd later with
          ⟨count, earlier, last, finalLater, cycles, cycledLater⟩
        refine ⟨count + 1, steps ++ earlier, last, finalLater, ?_, cycledLater.behind walks changed⟩
        rw [cycles]
        omega

theorem run_of_cycle_eq_none
    (stable : (recipe.cycle limits recipe.visitors tree).run.run session = (.ok none, after)) :
    recipe.run limits session tree = .ok ⟨tree, false, 1, true⟩ := by
  rcases recipe.iteration.exists_maxCycles_eq with ⟨left, most⟩
  have once : (recipe.runFrom limits tree).run.run session =
      (.ok ⟨tree, false, 1, true⟩, after) := by
    rw [runFrom, most, repeatCycle]
    exact bind_eq_ok.2 ⟨none, after, stable, rfl⟩
  rw [run, once]

theorem Cycled.stays {count : Nat} {earlier last : List (Node × Node)} {final : Node}
    (cycled : recipe.Cycled limits left before other session result count earlier last final)
    (respects : ∀ visitor ∈ recipe.visitors, visitor.Respects .content)
    (unchanged : ∀ step ∈ last, Unchanged step) {session' : Session}
    (cancelled : session'.cancelled = false) :
    (∀ visitor ∈ recipe.visitors, ∃ changed ended,
        walk visitor limits result.tree session' = (.ok changed, ended) ∧
          (changed.getD result.tree).contentEq result.tree = true) ∧
      recipe.run limits session' result.tree = .ok ⟨result.tree, false, 1, true⟩ := by
  rcases cycled.walks with ⟨middle, between, ended, -, walks⟩
  have same : Erasure.content.node result.tree = Erasure.content.node middle := by
    rw [← cycled.content, walks.content_of_unchanged unchanged]
  refine ⟨walks.unchanged_of_mem respects unchanged same cancelled, ?_⟩
  by_cases visitors : recipe.visitors = []
  · have stable : (recipe.cycle limits recipe.visitors result.tree).run.run session' =
        (.ok none, session') := by
      rw [visitors]
      rfl
    exact run_of_cycle_eq_none stable
  · have going := walks.not_cancelled visitors
    have stable : ∃ after, (recipe.cycle limits recipe.visitors result.tree).run.run session' =
        (.ok none, after) :=
      cycle_eq_none walks respects unchanged same (cancelled.trans going.symm)
    rcases stable with ⟨after, stable⟩
    exact run_of_cycle_eq_none stable

section

variable {count : Nat} {earlier last : List (Node × Node)} {final : Node}

theorem Cycled.exists_walks
    (cycled : recipe.Cycled limits left before tree session result count earlier last final) :
    ∃ ended, Walks limits (List.replicate (count + 1) recipe.visitors).flatten tree session
      (earlier ++ last) final ended ∧ last.length = recipe.visitors.length := by
  rcases cycled.walks with ⟨middle, between, ended, first, second⟩
  refine ⟨ended, ?_, second.length_eq⟩
  rw [List.replicate_succ', List.flatten_append, List.flatten_singleton]
  exact first.append second

theorem Cycled.converged_iff
    (cycled : recipe.Cycled limits left before tree session result count earlier last final)
    (several : recipe.iteration ≠ .singlePass) :
    result.converged = true ↔ ∀ step ∈ last, Unchanged step := by
  refine ⟨fun converged => ?_, cycled.stable⟩
  by_cases unchanged : ∀ step ∈ last, Unchanged step
  · exact unchanged
  · rw [(cycled.capped (by simpa using unchanged)).2, decide_eq_false several] at converged
    cases converged

theorem Cycled.count_of_not_converged
    (cycled : recipe.Cycled limits left before tree session result count earlier last final)
    (notConverged : result.converged = false) : count = left := by
  by_cases unchanged : ∀ step ∈ last, Unchanged step
  · rw [cycled.stable unchanged] at notConverged
    cases notConverged
  · exact (cycled.capped (by simpa using unchanged)).1

theorem Cycled.converged_of_singlePass
    (cycled : recipe.Cycled limits left before tree session result count earlier last final)
    (single : recipe.iteration = .singlePass) : result.converged = true := by
  by_cases unchanged : ∀ step ∈ last, Unchanged step
  · exact cycled.stable unchanged
  · rw [(cycled.capped (by simpa using unchanged)).2, single]
    rfl

end

end Recipe

/-- A run of a recipe whose visitors look at the content only does as the walks of all its visitors
in turn, cycle after cycle, and tells whether these change anything. When a cycle changes nothing,
the tree is one that no visitor changes any more. -/
theorem run_iterates_walks {recipe : Recipe}
    (respects : ∀ visitor ∈ recipe.visitors, visitor.Respects .content) {limits : WalkLimits}
    {session : Session} {tree : Node} {result : RecipeResult}
    (ran : recipe.run limits session tree = .ok result) :
    1 ≤ result.cycles ∧ result.cycles ≤ recipe.iteration.maxCycles ∧
      (∃ earlier last final ended,
        Walks limits (List.replicate result.cycles recipe.visitors).flatten tree session
          (earlier ++ last) final ended ∧
        last.length = recipe.visitors.length ∧
        final.contentEq result.tree = true ∧
        (result.changed = true ↔ ∃ step ∈ earlier ++ last, ¬ Unchanged step) ∧
        (recipe.iteration ≠ .singlePass →
          (result.converged = true ↔ ∀ step ∈ last, Unchanged step))) ∧
      (result.changed = false → result.tree = tree) ∧
      (recipe.iteration ≠ .singlePass → result.converged = true →
        (∀ visitor ∈ recipe.visitors, ∀ other : Session, other.cancelled = false →
          ∃ changed ended, walk visitor limits result.tree other = (.ok changed, ended) ∧
            (changed.getD result.tree).contentEq result.tree = true) ∧
        ∀ other : Session, other.cancelled = false →
          recipe.run limits other result.tree = .ok ⟨result.tree, false, 1, true⟩) ∧
      (result.converged = false → result.cycles = recipe.iteration.maxCycles) ∧
      (recipe.iteration = .singlePass → result.converged = true ∧ result.cycles = 1) := by
  rcases recipe.iteration.exists_maxCycles_eq with ⟨left, most⟩
  rcases went : (recipe.runFrom limits tree).run.run session with ⟨outcome, after⟩
  have finished : outcome = .ok result := by
    rw [Recipe.run, went] at ran
    exact ran
  rw [finished, Recipe.runFrom, most] at went
  rcases Recipe.exists_cycled respects rfl rfl went with
    ⟨count, earlier, last, final, cycles, cycled⟩
  rw [Nat.zero_add] at cycles
  have atMost := cycled.count_le
  refine ⟨by omega, by omega, ?_, Recipe.tree_eq_of_not_changed went, ?_, ?_, ?_⟩
  · rcases cycled.exists_walks with ⟨ended, walks, length⟩
    rw [cycles]
    refine ⟨earlier, last, final, ended, walks, length, Node.contentEq_iff.2 cycled.content, ?_,
      cycled.converged_iff⟩
    rw [cycled.changed]
    simp
  · intro several converged
    have unchanged := (cycled.converged_iff several).1 converged
    exact ⟨fun visitor member other going =>
        (cycled.stays respects unchanged going).1 visitor member,
      fun other going => (cycled.stays respects unchanged going).2⟩
  · intro notConverged
    have all := cycled.count_of_not_converged notConverged
    omega
  · intro single
    have onlyOne : left = 0 := by
      rw [single] at most
      cases most
      rfl
    exact ⟨cycled.converged_of_singlePass single, by omega⟩

/-- The first cycle renames, the second one finds nothing to do. -/
theorem run_iterates_rename :
    let edit : RenameIdentifier := ⟨"a", "b"⟩
    let recipe : Recipe := ⟨"rename", [edit.visitor], .untilStable 3⟩
    let name := Node.token .identifier "a"
    let tree := Node.branch .sourceFile [name]
    let renamed := tree.withChildren [name.withText "b"]
    recipe.run ⟨false, 0⟩ (.start 1 false) tree = .ok ⟨renamed, true, 2, true⟩ ∧
      ∃ earlier last final ended,
        Walks ⟨false, 0⟩ (List.replicate 2 [edit.visitor]).flatten tree (.start 1 false)
          (earlier ++ last) final ended ∧
        last.length = 1 ∧ final.contentEq renamed = true ∧ ∀ step ∈ last, Unchanged step := by
  intro edit recipe name tree renamed
  have respects : ∀ visitor ∈ recipe.visitors, visitor.Respects .content := by
    intro visitor member
    rw [List.mem_singleton.1 member]
    exact edit.visitor_respects Erasure.content_keepsText
  have first : (recipe.cycle ⟨false, 0⟩ recipe.visitors tree).run.run (.start 1 false) =
      (.ok (some renamed), .start 1 false) := rfl
  have second : (recipe.cycle ⟨false, 0⟩ recipe.visitors renamed).run.run (.start 1 false) =
      (.ok none, .start 1 false) := rfl
  have went : (recipe.runFrom ⟨false, 0⟩ tree).run.run (.start 1 false) =
      (.ok ⟨renamed, true, 2, true⟩, .start 1 false) := by
    rw [Recipe.runFrom, show recipe.iteration.maxCycles = 3 from rfl, Recipe.repeatCycle]
    refine Recipe.bind_eq_ok.2 ⟨some renamed, .start 1 false, first, ?_⟩
    have once : (recipe.repeatCycle ⟨false, 0⟩ 2 1 true renamed).run.run (.start 1 false) =
        (.ok ⟨renamed, true, 2, true⟩, .start 1 false) := by
      rw [Recipe.repeatCycle]
      exact Recipe.bind_eq_ok.2 ⟨none, .start 1 false, second, rfl⟩
    exact once
  have ran : recipe.run ⟨false, 0⟩ (.start 1 false) tree = .ok ⟨renamed, true, 2, true⟩ := by
    rw [Recipe.run, went]
  have iterates := run_iterates_walks respects ran
  rcases iterates.2.2.1 with ⟨earlier, last, final, ended, walks, length, content, -, converged⟩
  have unchanged := (converged (fun single => by cases single)).1 rfl
  exact ⟨ran, earlier, last, final, ended, walks, length, content, unchanged⟩

end Verbatim
