import Mathlib.Data.List.Forall2
import Verbatim.Proofs.Edits.Overlooking
import Verbatim.Proofs.Workbench.Batches
import Verbatim.Proofs.Workbench.Gathering

/-! A run over the files of a disk. Each file is reported as if it had been run over alone, but
for the number of the node in what is told of a failure; the files that are reported as changed
hold their new texts afterwards, and nothing else on the disk is touched. A run that cannot
start touches nothing at all. -/

namespace Verbatim

open Report (FileReport RunReport)

namespace Workbench

section

variable (libraries : Libraries) (disk : Disk) (next : Nat) (request : RunRequest)

end

section

variable {libraries : Libraries} {disk : Disk} {next : Nat} {request : RunRequest} {recipe : Recipe}

theorem runFiles_comeTo_of_loadRecipe {snapshot : Snapshot} {path : String}
    (loads : (ofLibraries libraries).loadRecipe snapshot path = .ok recipe) (limits : WalkLimits)
    (first_le : firstNumber ≤ next) (inputs : List Input) :
    List.Forall₂ ((ofLibraries libraries).ComesTo recipe limits) inputs
        ((ofLibraries libraries).runFiles next recipe limits inputs) ∧
      ∀ {input : Input} {outcome other : FileOutcome},
        (ofLibraries libraries).ComesTo recipe limits input outcome →
        (ofLibraries libraries).ComesTo recipe limits input other → outcome.Alike other := by
  have counts : ∀ language ∈ (ofLibraries libraries).languages, language.Counts :=
    fun _ => Language.counts_of_mem_standard
  rcases exceptBind_eq_ok.1 loads with ⟨text, -, loads⟩
  rcases exceptBind_eq_ok.1 loads with ⟨document, -, created⟩
  have overlook := Document.toRecipe_makes standard_overlookNumbers created
  exact ⟨runFiles_comeTo counts overlook first_le inputs, ComesTo.alike counts overlook⟩

theorem run_eq_ok {snapshot : Snapshot}
    (loads : (ofLibraries libraries).loadRecipe snapshot request.recipe = .ok recipe)
    {inputs : List Input}
    (collected : (ofLibraries libraries).collect snapshot request.paths = .ok inputs) :
    (ofLibraries libraries).run snapshot next request = .ok (.ofFiles recipe request.dryRun
      ((ofLibraries libraries).runFiles next recipe request.limits inputs)) := by
  rw [run, loads]
  simp only [bind, Except.bind, Except.mapError, collected]
  rfl

variable (libraries) in
/-- New texts of files, as far as there are any. -/
def changes (recipe : Recipe) (limits : WalkLimits) (inputs : List Input) :
    List (String × String) :=
  inputs.filterMap fun input =>
    ((ofLibraries libraries).runFile recipe limits input).text.map fun text => (input.path, text)

theorem texts_ofFiles {limits : WalkLimits} (dryRun : Bool) {inputs : List Input}
    {files : List FileOutcome}
    (alike : List.Forall₂ (fun input outcome =>
      ((ofLibraries libraries).runFile recipe limits input).Alike outcome) inputs files) :
    (RunOutcome.ofFiles recipe dryRun files).texts =
      if dryRun then [] else changes libraries recipe limits inputs := by
  have same : files.filterMap (fun file => file.text.map fun text => (file.report.path, text)) =
      changes libraries recipe limits inputs := by
    rw [changes]
    induction alike with
    | nil => rfl
    | cons here later induction =>
        rw [List.filterMap_cons, List.filterMap_cons, induction, here.text, ← here.report.path,
          path_runFile]
  rw [RunOutcome.ofFiles, same]

variable {inputs : List Input}
  (hold : ∀ input ∈ inputs, disk.Holds input)

include hold

end

/-! ## Reports of a run -/

section

variable {workbench : Workbench} {recipe : Recipe} {limits : WalkLimits}

variable {inputs : List Input} {files : List FileReport}
  (reports : List.Forall₂ (fun input (file : FileReport) =>
    (workbench.runFile recipe limits input).report.Alike file) inputs files)

include reports

end

/-! ## Runs -/

section

variable {libraries : Libraries} {disk : Disk} {next : Nat} {request : RunRequest} {recipe : Recipe}
  (loads : (ofLibraries libraries).loadRecipe disk.snapshot request.recipe = .ok recipe)

include loads

variable {inputs : List Input}
  (collected : (ofLibraries libraries).collect disk.snapshot request.paths = .ok inputs)

include collected

end

end Workbench

end Verbatim
