import Mathlib.Data.List.Forall2
import Mathlib.Data.List.Induction
import Verbatim.Proofs.Languages
import Verbatim.Proofs.Printing.Renumbered
import Verbatim.Proofs.Recipe.Renumbered
import Verbatim.Workbench.Run

/-! Files of a run do not meet. They are read together, and the recipe is run over all trees in one
go, but what is put back to the place of a file is what the file comes to by itself. All that a file
has of the others is that its nodes have other numbers, and no more of that is ever told than the
number of the node at which something failed. -/

namespace Verbatim

/-! ## Reports that tell the same -/

/-- The same error, at a node with another number. -/
def RecipeError.at (error : RecipeError) (node : NodeId) : RecipeError :=
  { error with cause := { error.cause with node } }

/-- What is told of a file is the same, but for the number of the node at which a visitor failed or
that cannot be printed. -/
inductive Report.FileReport.Alike : FileReport → FileReport → Prop
  | same (report : FileReport) : Alike report report
  | visitor (path : String) (error : RecipeError) (first second : NodeId) :
    Alike (.failed path (error.at first).toFailure) (.failed path (error.at second).toFailure)
  | printing (path : String) {first second : PrintError} :
    first.withoutNode = second.withoutNode →
    Alike (.failed path first.toFailure) (.failed path second.toFailure)

namespace Report.FileReport.Alike

variable {report other : FileReport} (alike : Alike report other)

include alike

theorem path : report.path = other.path := by
  cases alike <;> rfl

theorem status : report.status = other.status := by
  cases alike <;> rfl

end Report.FileReport.Alike

namespace Workbench

structure FileOutcome.Alike (outcome other : FileOutcome) : Prop where
  report : outcome.report.Alike other.report
  text : outcome.text = other.text

theorem FileOutcome.Alike.refl (outcome : FileOutcome) : outcome.Alike outcome := ⟨.same _, rfl⟩

/-! ## One file -/

section

variable (workbench : Workbench) (recipe : Recipe) (limits : WalkLimits)

/-- What a file comes to that is read with the numbers from `next` on, if the recipe goes on with
those from `later` on. -/
def runFileFrom (next later : Nat) (input : Input) : FileOutcome :=
  match (workbench.readFile next input).1 with
  | .error failure => .failed input.path failure
  | .ok source => .ofRun workbench.libraries.changeset source
      (recipe.run limits (.start later false) source.tree)

/-- What a file comes to if there is no other. -/
def runFile (input : Input) : FileOutcome :=
  workbench.runFileFrom recipe limits firstNumber (workbench.readFile firstNumber input).2 input

/-- The numbers from `later` on are free when the file has been read with those from `next` on. -/
structure Leaves (input : Input) (next later : Nat) : Prop where
  first_le : firstNumber ≤ next
  le_later : (workbench.readFile next input).2 ≤ later

end

section

variable {workbench : Workbench}

theorem readFile_eq_ok_iff {first next : Nat} {input : Input} {source : SourceFile} :
    workbench.readFile first input = (.ok source, next) ↔
      ∃ language text root, Language.for? workbench.languages input.path = some language ∧
        input.text = some text ∧ language.read first text = (.ok root, next) ∧
          source = ⟨input.path, language.name, text, root⟩ := by
  rw [readFile]
  cases claimed : Language.for? workbench.languages input.path with
  | none => simp
  | some language =>
      cases input.text with
      | none => simp
      | some text =>
          rcases read : language.read first text with ⟨_ | root, after⟩
          · simp [read]
          · simp [read, eq_comm, and_comm]

variable (counts : ∀ language ∈ workbench.languages, language.Counts)

include counts

theorem readFile_add (first distance : Nat) (input : Input) :
    workbench.readFile (first + distance) input =
      ((workbench.readFile first input).1.map fun source =>
        { source with tree := source.tree.renumber (.shift distance) },
        (workbench.readFile first input).2 + distance) := by
  rw [readFile, readFile]
  cases claimed : Language.for? workbench.languages input.path with
  | none => rfl
  | some language =>
      cases input.text with
      | none => rfl
      | some text =>
          have counting := counts language (List.mem_of_find?_eq_some claimed)
          simp only [counting.add first distance text]
          rcases language.read first text with ⟨_ | root, next⟩ <;> rfl

theorem le_readFile (first : Nat) (input : Input) : first ≤ (workbench.readFile first input).2 := by
  have further := readFile_add counts 0 first input
  rw [Nat.zero_add] at further
  rw [further]
  exact Nat.le_add_left ..

theorem lt_readFile {first next : Nat} {input : Input} {source : SourceFile}
    (opened : workbench.readFile first input = (.ok source, next)) :
    ∀ number ∈ source.tree.numbers, number < next := by
  rcases readFile_eq_ok_iff.1 opened with ⟨language, text, root, claimed, -, read, rfl⟩
  have below := (counts language (List.mem_of_find?_eq_some claimed)).lt_next
    (congrArg Prod.fst read)
  rw [read] at below
  exact below

section

variable {input : Input} {next later : Nat} (leaves : workbench.Leaves input next later)

include leaves

theorem readFile_error {failure : Failure} {free : Nat}
    (failed : workbench.readFile firstNumber input = (.error failure, free)) :
    (workbench.readFile next input).1 = .error failure := by
  rcases Nat.exists_eq_add_of_le leaves.first_le with ⟨distance, rfl⟩
  rw [readFile_add counts, failed]
  rfl

theorem readFile_ok {alone : SourceFile} {free : Nat}
    (opened : workbench.readFile firstNumber input = (.ok alone, free)) :
    ∃ anew : Renumbering, anew.free = free ∧ anew.other = later ∧
      (workbench.readFile next input).1 =
        .ok { alone with tree := anew.node alone.tree } := by
  rcases Nat.exists_eq_add_of_le leaves.first_le with ⟨distance, rfl⟩
  have le_later := leaves.le_later
  rw [readFile_add counts, opened] at le_later ⊢
  simp only at le_later
  -- What is read moves on by the distance, and what is made is numbered from `later` on.
  let anew : Renumbering := {
    id := fun id => if id.number < free then .shift distance id else .shift (later - free) id
    injective := by
      intro id other same
      simp only [NodeId.shift] at same
      split at same <;> split at same <;> simp only [NodeId.mk.injEq] at same <;>
        exact congrArg NodeId.mk (show id.number = other.number by omega)
    free := free
    other := later
    fresh := by
      intro count
      simp only [NodeId.shift]
      rw [if_neg (by omega)]
      exact congrArg NodeId.mk (by omega) }
  refine ⟨anew, rfl, rfl, ?_⟩
  apply congrArg fun tree => Except.ok (SourceFile.mk alone.path alone.language alone.text tree)
  apply Node.renumber_congr
  intro part inside
  exact (if_pos (lt_readFile counts opened _ (List.mem_map_of_mem inside))).symm

end

end

/-! ## Numbers in outcomes -/

section

variable {workbench : Workbench} {recipe : Recipe} {limits : WalkLimits}

theorem ofRun_alike (changeset : Diff.Changeset) (source : SourceFile)
    (ran : Except RecipeError RecipeResult) (first second : Renumbering) :
    (FileOutcome.ofRun changeset source
      ((ran.map first.result).mapError first.recipeError)).Alike
      (.ofRun changeset source ((ran.map second.result).mapError second.recipeError)) := by
  cases ran with
  | error error => exact ⟨.visitor source.path error _ _, rfl⟩
  | ok result =>
      show (FileOutcome.ofResult changeset source (first.result result)).Alike
        (.ofResult changeset source (second.result result))
      rw [FileOutcome.ofResult, FileOutcome.ofResult, Renumbering.result, Renumbering.result]
      simp only [Node.print_renumber]
      cases result.changed with
      | false => exact .refl _
      | true =>
          cases result.tree.print with
          | ok text => exact .refl _
          | error error =>
              refine ⟨.printing source.path ?_, rfl⟩
              rw [PrintError.withoutNode_renumber, PrintError.withoutNode_renumber]

variable (counts : ∀ language ∈ workbench.languages, language.Counts)
  (overlook : ∀ visitor ∈ recipe.visitors, visitor.OverlooksNumbers)

include overlook

theorem run_renumber (anew : Renumbering) (tree : Node) :
    recipe.run limits (.start anew.other false) (anew.node tree) =
      ((recipe.run limits (.start anew.free false) tree).map anew.result).mapError
        anew.recipeError := by
  have sessions : anew.Sessions (.start anew.free false) (.start anew.other false) :=
    ⟨rfl, rfl, 0, rfl, rfl⟩
  exact (Recipe.runFrom_reruns limits overlook tree sessions).result

theorem le_nextId_runFrom (next : Nat) (tree : Node) :
    next ≤ ((recipe.runFrom limits tree).run.run (.start next false)).2.nextId := by
  let same : Renumbering := ⟨id, Function.injective_id, next, next, fun _ => rfl⟩
  have sessions : same.Sessions (.start next false) (.start next false) := ⟨rfl, rfl, 0, rfl, rfl⟩
  have reruns := (Recipe.runFrom_reruns limits overlook tree sessions).session.other_le
  rwa [show same.node tree = tree from Node.renumber_id tree] at reruns

include counts

theorem runFileFrom_alike {input : Input} {next later next' later' : Nat}
    (leaves : workbench.Leaves input next later) (leaves' : workbench.Leaves input next' later') :
    (workbench.runFileFrom recipe limits next later input).Alike
      (workbench.runFileFrom recipe limits next' later' input) := by
  rw [runFileFrom, runFileFrom]
  rcases opened : workbench.readFile firstNumber input with ⟨failure | alone, free⟩
  · rw [readFile_error counts leaves opened, readFile_error counts leaves' opened]
    exact .refl _
  · rcases readFile_ok counts leaves opened with ⟨first, rfl, rfl, read⟩
    rcases readFile_ok counts leaves' opened with ⟨second, free, rfl, read'⟩
    rw [read, read']
    simp only
    rw [run_renumber overlook first, run_renumber overlook second, free]
    exact ofRun_alike _ alone _ first second

end

/-! ## What becomes of a file -/

section

variable (workbench : Workbench) (recipe : Recipe) (limits : WalkLimits)

/-- A file is rewritten when the recipe changes its tree, and the changed tree is printed as another
text. -/
def Rewrites (path before after : String) : Prop :=
  ∃ language root next result,
    Language.for? workbench.languages path = some language ∧
      language.read firstNumber before = (.ok root, next) ∧
      recipe.run limits (.start next false) root = .ok result ∧
      result.changed = true ∧ result.tree.print = .ok after ∧ after ≠ before

variable {workbench recipe limits}

theorem runFile_of_rewrites {input : Input} {before after : String}
    (old : input.text = some before)
    (rewrites : workbench.Rewrites recipe limits input.path before after) :
    ∃ language, workbench.runFile recipe limits input =
      ⟨.changed input.path language
        (workbench.libraries.changeset.unified input.path before after), some after⟩ := by
  rcases rewrites with
    ⟨language, root, next, result, claimed, read, ran, changed, printed, differ⟩
  have opened := readFile_eq_ok_iff.2 ⟨language, before, root, claimed, old, read, rfl⟩
  refine ⟨language.name, ?_⟩
  rw [runFile, runFileFrom, opened]
  simp only [ran, FileOutcome.ofRun, FileOutcome.ofResult, changed, if_true, printed,
    FileOutcome.ofPrinted, if_neg differ]

theorem runFile_of_not_rewrites {input : Input}
    (not : ∀ before after, input.text = some before →
      ¬workbench.Rewrites recipe limits input.path before after) :
    (workbench.runFile recipe limits input).report.path = input.path ∧
      (workbench.runFile recipe limits input).report.status ≠ .changed ∧
      (workbench.runFile recipe limits input).text = none := by
  rw [runFile, runFileFrom]
  rcases opened : workbench.readFile firstNumber input with ⟨failure | source, next⟩
  · exact ⟨rfl, nofun, rfl⟩
  · rcases readFile_eq_ok_iff.1 opened with ⟨language, text, root, claimed, old, read, rfl⟩
    simp only
    cases ran : recipe.run limits (.start next false) root with
    | error error => exact ⟨rfl, nofun, rfl⟩
    | ok result =>
        rw [FileOutcome.ofRun, FileOutcome.ofResult]
        cases changed : result.changed with
        | false => exact ⟨rfl, nofun, rfl⟩
        | true =>
            cases printed : result.tree.print with
            | error error => exact ⟨rfl, nofun, rfl⟩
            | ok after =>
                by_cases equal : after = text
                · simp only [if_true, FileOutcome.ofPrinted, if_pos equal]
                  exact ⟨rfl, nofun, rfl⟩
                · exact absurd ⟨language, root, next, result, claimed, read, ran, changed,
                    printed, equal⟩ (not text after old)

variable (workbench recipe limits)

/-- A changed file has a new text and a diff that leads to it. No other file has either. -/
theorem runFile_cases (input : Input) :
    (∃ before after language, input.text = some before ∧
        workbench.Rewrites recipe limits input.path before after ∧
        workbench.runFile recipe limits input =
          ⟨.changed input.path language
            (workbench.libraries.changeset.unified input.path before after), some after⟩) ∨
      ((workbench.runFile recipe limits input).report.path = input.path ∧
        (workbench.runFile recipe limits input).report.status ≠ .changed ∧
        (workbench.runFile recipe limits input).text = none) := by
  by_cases written : ∃ before after, input.text = some before ∧
      workbench.Rewrites recipe limits input.path before after
  · rcases written with ⟨before, after, old, rewrites⟩
    rcases runFile_of_rewrites old rewrites with ⟨language, whole⟩
    exact .inl ⟨before, after, language, old, rewrites, whole⟩
  · refine .inr (runFile_of_not_rewrites fun before after old rewrites => ?_)
    exact written ⟨before, after, old, rewrites⟩

theorem path_runFile (input : Input) :
    (workbench.runFile recipe limits input).report.path = input.path := by
  rcases runFile_cases workbench recipe limits input with
    ⟨before, after, language, -, -, outcome⟩ | ⟨path, -⟩
  · rw [outcome]
    rfl
  · exact path

variable {workbench recipe limits} {path before after : String}
  (rewrites : workbench.Rewrites recipe limits path before after)

include rewrites

theorem Rewrites.unique {other : String}
    (again : workbench.Rewrites recipe limits path before other) : after = other := by
  rcases rewrites with ⟨language, root, next, result, claimed, read, ran, -, printed, -⟩
  rcases again with ⟨language', root', next', result', claimed', read', ran', -, printed', -⟩
  cases Option.some.inj (claimed.symm.trans claimed')
  cases read.symm.trans read'
  cases Except.ok.inj (ran.symm.trans ran')
  exact Except.ok.inj (printed.symm.trans printed')

theorem Rewrites.differ : after ≠ before := by
  rcases rewrites with ⟨_, _, _, _, -, -, -, -, -, differ⟩
  exact differ

end

/-! ## Places -/

def putBack (outcomes : List (Option FileOutcome)) (placed : List (Nat × FileOutcome)) :
    List (Option FileOutcome) :=
  placed.foldl (fun outcomes entry => outcomes.set entry.1 (some entry.2)) outcomes

theorem putBack_cons (outcomes : List (Option FileOutcome)) (entry : Nat × FileOutcome)
    (rest : List (Nat × FileOutcome)) :
    putBack outcomes (entry :: rest) =
      putBack (outcomes.set entry.1 (some entry.2)) rest := rfl

theorem putBack_concat (outcomes : List (Option FileOutcome)) (placed : List (Nat × FileOutcome))
    (entry : Nat × FileOutcome) :
    putBack outcomes (placed ++ [entry]) =
      (putBack outcomes placed).set entry.1 (some entry.2) :=
  List.foldl_append ..

theorem length_putBack (outcomes : List (Option FileOutcome))
    (placed : List (Nat × FileOutcome)) :
    (putBack outcomes placed).length = outcomes.length := by
  induction placed generalizing outcomes with
  | nil => rfl
  | cons entry rest induction => rw [putBack_cons, induction, List.length_set]

theorem putBack_append {placed : List (Nat × FileOutcome)} {outcomes : List (Option FileOutcome)}
    (behind : List (Option FileOutcome)) (inside : ∀ entry ∈ placed, entry.1 < outcomes.length) :
    putBack (outcomes ++ behind) placed = putBack outcomes placed ++ behind := by
  induction placed generalizing outcomes with
  | nil => rfl
  | cons entry rest induction =>
      rw [putBack_cons, putBack_cons, List.set_append_left _ _ (inside entry List.mem_cons_self)]
      apply induction
      intro other member
      rw [List.length_set]
      exact inside other (List.mem_cons_of_mem _ member)

/-! ## Batches -/

namespace Batch

/-- The outcomes of the files that wait, each with its place. -/
def settled (changeset : Diff.Changeset) (waiting : List (Nat × SourceFile))
    (results : List (Except RecipeError RecipeResult)) : List (Nat × FileOutcome) :=
  (waiting.zip results).map fun (entry, result) => (entry.1, .ofRun changeset entry.2 result)

theorem settle_eq (changeset : Diff.Changeset) (batch : Batch)
    (results : List (Except RecipeError RecipeResult)) :
    batch.settle changeset results =
      putBack batch.outcomes (settled changeset batch.waiting results) := by
  rw [putBack, settled, List.foldl_map]
  rfl

theorem settled_concat (changeset : Diff.Changeset) {waiting : List (Nat × SourceFile)}
    {results : List (Except RecipeError RecipeResult)} (each : waiting.length = results.length)
    (entry : Nat × SourceFile) (result : Except RecipeError RecipeResult) :
    settled changeset (waiting ++ [entry]) (results ++ [result]) =
      settled changeset waiting results ++ [(entry.1, .ofRun changeset entry.2 result)] := by
  rw [settled, List.zip_append each, List.map_append]
  rfl

theorem place_lt_of_mem_settled {changeset : Diff.Changeset} {waiting : List (Nat × SourceFile)}
    {results : List (Except RecipeError RecipeResult)} {places : Nat}
    (placed : ∀ entry ∈ waiting, entry.1 < places) :
    ∀ entry ∈ settled changeset waiting results, entry.1 < places := by
  intro entry member
  rcases List.mem_map.1 member with ⟨⟨source, result⟩, among, rfl⟩
  exact placed source (List.of_mem_zip among).1

variable {recipe : Recipe} (limits : WalkLimits)

theorem runFrom_cons (next : Nat) (tree : Node) (rest : List Node) :
    runFrom recipe limits next (tree :: rest) =
      recipe.run limits (.start next false) tree :: runFrom recipe limits
        ((recipe.runFrom limits tree).run.run (.start next false)).2.nextId rest := rfl

theorem length_runFrom (next : Nat) (trees : List Node) :
    (runFrom recipe limits next trees).length = trees.length := by
  induction trees generalizing next with
  | nil => rfl
  | cons tree rest induction => rw [runFrom_cons, List.length_cons, induction, List.length_cons]

theorem runFrom_concat (overlook : ∀ visitor ∈ recipe.visitors, visitor.OverlooksNumbers)
    (next : Nat) (trees : List Node) (tree : Node) :
    ∃ later, next ≤ later ∧ runFrom recipe limits next (trees ++ [tree]) =
      runFrom recipe limits next trees ++ [recipe.run limits (.start later false) tree] := by
  induction trees generalizing next with
  | nil => exact ⟨next, Nat.le_refl next, rfl⟩
  | cons first rest induction =>
      have further := @le_nextId_runFrom recipe limits overlook next first
      rcases induction ((recipe.runFrom limits first).run.run (.start next false)).2.nextId with
        ⟨later, above, same⟩
      refine ⟨later, Nat.le_trans further above, ?_⟩
      rw [List.cons_append, runFrom_cons, runFrom_cons, List.cons_append]
      exact congrArg _ same

end Batch

section

variable (workbench : Workbench) (recipe : Recipe) (limits : WalkLimits)

def ComesTo (input : Input) (outcome : FileOutcome) : Prop :=
  ∃ next later, workbench.Leaves input next later ∧
    outcome = workbench.runFileFrom recipe limits next later input

/-- So far the files have been read, and whatever numbers the recipe then goes on with, each of them
comes to what it comes to by itself. -/
structure Serves (batch : Batch) (inputs : List Input) : Prop where
  first_le : firstNumber ≤ batch.next
  placed : ∀ entry ∈ batch.waiting, entry.1 < batch.outcomes.length
  settles : ∀ later, batch.next ≤ later → ∃ outcomes : List FileOutcome,
    batch.settle workbench.libraries.changeset
        (Batch.runFrom recipe limits later (batch.waiting.map (·.2.tree))) =
      outcomes.map some ∧
    List.Forall₂ (workbench.ComesTo recipe limits) inputs outcomes

variable {workbench recipe limits}

theorem serves_empty {next : Nat} (first_le : firstNumber ≤ next) :
    workbench.Serves recipe limits (.empty next) [] where
  first_le := first_le
  placed _ member := nomatch member
  settles _ _ := ⟨[], rfl, .nil⟩

section

variable {batch : Batch} {inputs : List Input} {input : Input} {next : Nat}
  (serves : workbench.Serves recipe limits batch inputs) (further : batch.next ≤ next)

include serves further

theorem Serves.add_failed {failure : Failure}
    (opened : workbench.readFile batch.next input = (.error failure, next)) :
    workbench.Serves recipe limits (batch.add input.path (.error failure, next))
      (inputs ++ [input]) where
  first_le := Nat.le_trans serves.first_le further
  placed entry member := by
    have old := serves.placed entry member
    simp only [Batch.add, List.length_append, List.length_singleton]
    omega
  settles later above := by
    rcases serves.settles later (Nat.le_trans further above) with ⟨outcomes, settled, served⟩
    have leaves : workbench.Leaves input batch.next later := ⟨serves.first_le, by rwa [opened]⟩
    have here : workbench.ComesTo recipe limits input (.failed input.path failure) :=
      ⟨batch.next, later, leaves, by rw [runFileFrom, opened]⟩
    refine ⟨outcomes ++ [.failed input.path failure], ?_, List.rel_append served (.cons here .nil)⟩
    rw [Batch.settle_eq] at settled ⊢
    simp only [Batch.add]
    rw [putBack_append _ (Batch.place_lt_of_mem_settled serves.placed), settled, List.map_append]
    rfl

variable (overlook : ∀ visitor ∈ recipe.visitors, visitor.OverlooksNumbers)

include overlook

theorem Serves.add_source {source : SourceFile}
    (opened : workbench.readFile batch.next input = (.ok source, next)) :
    workbench.Serves recipe limits (batch.add input.path (.ok source, next))
      (inputs ++ [input]) where
  first_le := Nat.le_trans serves.first_le further
  placed entry member := by
    simp only [Batch.add, List.length_append, List.length_singleton]
    rcases List.mem_append.1 member with member | member
    · have old := serves.placed entry member
      omega
    · rw [List.mem_singleton.1 member]
      exact Nat.lt_succ_self _
  settles later above := by
    rcases serves.settles later (Nat.le_trans further above) with ⟨outcomes, settled, served⟩
    -- the new file comes last, with the numbers that are free behind all the others
    rcases Batch.runFrom_concat limits overlook later (batch.waiting.map (·.2.tree)) source.tree
      with ⟨last, beyond, results⟩
    have leaves : workbench.Leaves input batch.next last :=
      ⟨serves.first_le, by rw [opened]; exact Nat.le_trans above beyond⟩
    have here : workbench.ComesTo recipe limits input
        (.ofRun workbench.libraries.changeset source
          (recipe.run limits (.start last false) source.tree)) :=
      ⟨batch.next, last, leaves, by rw [runFileFrom, opened]⟩
    refine ⟨outcomes ++ [_], ?_, List.rel_append served (.cons here .nil)⟩
    have each : batch.waiting.length =
        (Batch.runFrom recipe limits later (batch.waiting.map (·.2.tree))).length := by
      rw [Batch.length_runFrom, List.length_map]
    have known : outcomes.length = batch.outcomes.length := by
      rw [← List.length_map some, ← settled, Batch.settle_eq, length_putBack]
    rw [Batch.settle_eq] at settled ⊢
    simp only [Batch.add, List.map_append, List.map_cons, List.map_nil]
    rw [results, Batch.settled_concat _ each, putBack_concat,
      putBack_append _ (Batch.place_lt_of_mem_settled serves.placed), settled, ← known,
      ← List.length_map some, List.set_append_right _ _ (Nat.le_refl _), Nat.sub_self,
      List.set_cons_zero]

end

variable (counts : ∀ language ∈ workbench.languages, language.Counts)
  (overlook : ∀ visitor ∈ recipe.visitors, visitor.OverlooksNumbers)

include counts overlook

theorem Serves.add {batch : Batch} {inputs : List Input}
    (serves : workbench.Serves recipe limits batch inputs) (input : Input) :
    workbench.Serves recipe limits
      (batch.add input.path (workbench.readFile batch.next input)) (inputs ++ [input]) := by
  have further := le_readFile counts batch.next input
  rcases opened : workbench.readFile batch.next input with ⟨failure | source, next⟩
  all_goals rw [opened] at further
  · exact serves.add_failed further opened
  · exact serves.add_source further overlook opened

theorem serves_readAll {next : Nat} (first_le : firstNumber ≤ next) (inputs : List Input) :
    workbench.Serves recipe limits (workbench.readAll next inputs) inputs := by
  induction inputs using List.reverseRecOn with
  | nil => exact serves_empty first_le
  | append_singleton inputs input induction =>
      rw [readAll, List.foldl_append]
      exact induction.add counts overlook input

theorem runFiles_comeTo {next : Nat} (first_le : firstNumber ≤ next) (inputs : List Input) :
    List.Forall₂ (workbench.ComesTo recipe limits) inputs
      (workbench.runFiles next recipe limits inputs) := by
  rcases (serves_readAll counts overlook first_le inputs).settles _ (Nat.le_refl _) with
    ⟨outcomes, settled, served⟩
  rw [runFiles, Batch.results, settled, List.filterMap_map, Function.id_comp, List.filterMap_some]
  exact served

theorem ComesTo.alike {input : Input} {outcome other : FileOutcome}
    (comes : workbench.ComesTo recipe limits input outcome)
    (again : workbench.ComesTo recipe limits input other) : outcome.Alike other := by
  rcases comes with ⟨next, later, leaves, rfl⟩
  rcases again with ⟨next', later', leaves', rfl⟩
  exact runFileFrom_alike counts overlook leaves leaves'

end

theorem comesTo_runFile {workbench : Workbench} (recipe : Recipe) (limits : WalkLimits)
    (input : Input) :
    workbench.ComesTo recipe limits input (workbench.runFile recipe limits input) :=
  ⟨firstNumber, _, ⟨Nat.le_refl _, Nat.le_refl _⟩, rfl⟩

end Workbench

end Verbatim
