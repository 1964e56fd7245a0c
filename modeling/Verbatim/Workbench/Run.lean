import Verbatim.Diff.Alignment
import Verbatim.Diff.Unified
import Verbatim.Edits.Standard
import Verbatim.Printing.Printer
import Verbatim.Recipe.DocumentText
import Verbatim.Report
import Verbatim.Workbench.Inputs

/-! Commands over files. A failure with one file is part of the report and stops nothing; what fails
before any file is looked at fails the whole command. All nodes that are built for a command get
numbers from one counter, whichever file they are of. -/

namespace Verbatim

open Report (FileReport RunReport PrintReport)

/-- What commands take from elsewhere: the reading of documents, going through folders, and
comparing texts. -/
structure Libraries where
  readers : Readers
  folders : FolderWalk
  changeset : Diff.Changeset

def Libraries.standard : Libraries := ⟨.standard, .standard, .standard⟩

/-- Languages that files can be read in, and visitors that recipes can name. -/
structure Workbench where
  languages : List Language
  catalog : Catalog
  libraries : Libraries

namespace Workbench

def ofLibraries (libraries : Libraries) : Workbench :=
  ⟨Language.standard, Catalog.standard, libraries⟩

def standard : Workbench := ofLibraries .standard

/-- The number of the first node that is built at all. -/
def firstNumber : Nat := 1

/-! Recipes. -/

/-- JSON is told by the extension, everything else is taken as TOML. -/
def notationOf (path : String) : DocumentNotation :=
  if Path.extension? path = some "json" then .json else .toml

def loadRecipe (workbench : Workbench) (snapshot : Snapshot) (path : String) :
    Except RecipeFault Recipe := do
  let text ← (snapshot.readText path).mapError fun fault => .unreadable path fault.message
  let document ← Document.ofText workbench.libraries.readers text (notationOf path)
  document.toRecipe workbench.catalog

/-! Files. -/

structure SourceFile where
  path : String
  language : String
  text : String
  tree : Node

/-- Read a file, with the next free number before and after. -/
def readFile (workbench : Workbench) (next : Nat) (input : Input) :
    Except Failure SourceFile × Nat :=
  match Language.for? workbench.languages input.path, input.text with
  | none, _ => (.error (.invalidArguments ("no parser for " ++ input.path)), next)
  | some _, none => (.error (.fileAccess input.path AccessFault.notText.message), next)
  | some language, some text =>
    match language.read next text with
    | (.error error, next) => (.error (error.withPath input.path).toFailure, next)
    | (.ok tree, next) => (.ok ⟨input.path, language.name, text, tree⟩, next)

/-- What becomes of a file: a report, and a new text if there is one. -/
structure FileOutcome where
  report : FileReport
  text : Option String

namespace FileOutcome

def failed (path : String) (failure : Failure) : FileOutcome := ⟨.failed path failure, none⟩

def unchanged (source : SourceFile) : FileOutcome :=
  ⟨.unchanged source.path source.language, none⟩

section

variable (changeset : Diff.Changeset) (source : SourceFile)

/-- A changed tree counts only if it is printed in another way. -/
def ofPrinted (printed : String) : FileOutcome :=
  if printed = source.text then unchanged source
  else
    ⟨.changed source.path source.language (changeset.unified source.path source.text printed),
      some printed⟩

def ofResult (result : RecipeResult) : FileOutcome :=
  if result.changed then
    match result.tree.print with
    | .ok printed => ofPrinted changeset source printed
    | .error error => failed source.path error.toFailure
  else unchanged source

def ofRun : Except RecipeError RecipeResult → FileOutcome
  | .error error => failed source.path error.toFailure
  | .ok result => ofResult changeset source result

end

end FileOutcome

/-! Many files. All of them are read before the recipe is run over any tree, and only the files that
could be read go on to it. What comes of them is put back to their places among the others. -/

/-- Outcomes in the order of files, as far as they are known, and the files that still wait for the
recipe, each with its place in that order. -/
structure Batch where
  outcomes : List (Option FileOutcome)
  waiting : List (Nat × SourceFile)
  /-- The next free number. -/
  next : Nat

namespace Batch

def empty (next : Nat) : Batch := ⟨[], [], next⟩

def add (batch : Batch) (path : String) : Except Failure SourceFile × Nat → Batch
  | (.error failure, next) =>
    ⟨batch.outcomes ++ [some (.failed path failure)], batch.waiting, next⟩
  | (.ok source, next) =>
    ⟨batch.outcomes ++ [none], batch.waiting ++ [(batch.outcomes.length, source)], next⟩

/-- What the recipe comes to for trees, one after the other. -/
def runFrom (recipe : Recipe) (limits : WalkLimits) :
    (next : Nat) → List Node → List (Except RecipeError RecipeResult)
  | _, [] => []
  | next, tree :: rest =>
    let (result, session) := (recipe.runFrom limits tree).run.run (.start next false)
    result :: runFrom recipe limits session.nextId rest

/-- What it comes to for the files that wait, in their order. -/
def results (recipe : Recipe) (limits : WalkLimits) (batch : Batch) :
    List (Except RecipeError RecipeResult) :=
  runFrom recipe limits batch.next (batch.waiting.map (·.2.tree))

def settle (changeset : Diff.Changeset) (batch : Batch)
    (results : List (Except RecipeError RecipeResult)) : List (Option FileOutcome) :=
  (batch.waiting.zip results).foldl (fun outcomes ((place, source), result) =>
    outcomes.set place (some (.ofRun changeset source result))) batch.outcomes

end Batch

def readAll (workbench : Workbench) (next : Nat) (inputs : List Input) : Batch :=
  inputs.foldl (fun batch input => batch.add input.path (workbench.readFile batch.next input))
    (.empty next)

def runFiles (workbench : Workbench) (next : Nat) (recipe : Recipe) (limits : WalkLimits)
    (inputs : List Input) : List FileOutcome :=
  let batch := workbench.readAll next inputs
  (batch.settle workbench.libraries.changeset (batch.results recipe limits)).filterMap id

/-! Runs. -/

structure RunRequest where
  recipe : String
  paths : List String
  /-- Report what would change, and write nothing. -/
  dryRun : Bool
  limits : WalkLimits

structure RunOutcome where
  report : RunReport
  /-- New texts of files, under their paths. -/
  texts : List (String × String)

def RunOutcome.ofFiles (recipe : Recipe) (dryRun : Bool) (files : List FileOutcome) : RunOutcome :=
  let changes := files.filterMap fun file => file.text.map fun text => (file.report.path, text)
  ⟨⟨recipe.name, dryRun, files.map (·.report)⟩, if dryRun then [] else changes⟩

def collect (workbench : Workbench) (snapshot : Snapshot) (paths : List String) :
    Except Failure (List Input) :=
  Input.collect workbench.libraries.folders workbench.languages snapshot paths

/-- The recipe is set up before any other path is looked at. `next` is the next free number. -/
def run (workbench : Workbench) (snapshot : Snapshot) (next : Nat) (request : RunRequest) :
    Except Failure RunOutcome := do
  let recipe ← (workbench.loadRecipe snapshot request.recipe).mapError RecipeFault.toFailure
  let inputs ← workbench.collect snapshot request.paths
  return .ofFiles recipe request.dryRun (workbench.runFiles next recipe request.limits inputs)

/-! Printing a file. -/

def inputAt (snapshot : Snapshot) (path : String) : Except Failure Input :=
  match snapshot path with
  | .ok (.file text) => .ok ⟨path, text⟩
  | _ => .error (.fileNotFound path)

def printFile (workbench : Workbench) (snapshot : Snapshot) (path : String) :
    Except Failure PrintReport := do
  let source ← (workbench.readFile firstNumber (← inputAt snapshot path)).1
  let text ← source.tree.print.mapError PrintError.toFailure
  return ⟨path, source.language, source.tree.size, text, text = source.text⟩

end Workbench

end Verbatim
