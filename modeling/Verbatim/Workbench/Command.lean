import Verbatim.Workbench.Run

/-! Commands, and what carrying them out comes to: an answer, an exit status and new texts of
files. -/

namespace Verbatim

inductive Command where
  | run (request : Workbench.RunRequest)
  | print (path : String)
  | visitors

structure CommandOutcome where
  code : Nat
  output : String
  /-- New texts of files, under their paths. -/
  texts : List (String × String)
  deriving DecidableEq, Repr

namespace CommandOutcome

def ofAnswer (answer : Json.Value) : CommandOutcome := ⟨0, Report.render answer, []⟩

/-- A failure is an answer like any other, but shows in the exit status. -/
def ofFailure (failure : Failure) : CommandOutcome :=
  ⟨failure.code, Report.render (Report.failureAnswer failure), []⟩

/-- Files that failed show in the exit status, after all others have been dealt with. -/
def ofRun (outcome : Workbench.RunOutcome) : CommandOutcome :=
  let code := match outcome.report.incomplete with
    | none => 0
    | some failure => failure.code
  ⟨code, Report.render outcome.report.toJson, outcome.texts⟩

end CommandOutcome

namespace Command

def paths : Command → List String
  | run request => request.recipe :: request.paths
  | print path => [path]
  | visitors => []

/-- Each command is carried out by a program of its own, which numbers its nodes from the first
number on. -/
def carryOut (workbench : Workbench) (snapshot : Snapshot) : Command → CommandOutcome
  | run request =>
    match workbench.run snapshot Workbench.firstNumber request with
    | .ok outcome => .ofRun outcome
    | .error failure => .ofFailure failure
  | print path =>
    match workbench.printFile snapshot path with
    | .ok report => .ofAnswer report.toJson
    | .error failure => .ofFailure failure
  | visitors => .ofAnswer (Report.visitorsAnswer workbench.catalog.describe)

end Command

end Verbatim
