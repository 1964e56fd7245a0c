import Verbatim.Failure
import Verbatim.Json.Writer

/-! Answers of the commands. Each is one JSON object over several lines, led by a status and the
version of the format; absent parts are left out. -/

namespace Verbatim.Report

def formatVersion : String := "1"

def render (answer : Json.Value) : String := answer.pretty ++ "\n"

def header (status : String) : List (String × Json.Value) :=
  [("status", .string status), ("schema_version", .string formatVersion)]

def optionalField (name : String) (write : α → Json.Value) : Option α → List (String × Json.Value)
  | none => []
  | some value => [(name, write value)]

/-! Errors. -/

structure ErrorInfo where
  code : Nat
  message : String
  details : Option Json.Value

def ErrorInfo.ofFailure (failure : Failure) : ErrorInfo :=
  ⟨failure.code, failure.message, failure.details⟩

def ErrorInfo.toJson (info : ErrorInfo) : Json.Value :=
  .object ([("code", .ofNat info.code), ("message", .string info.message)] ++
    optionalField "details" id info.details)

def failureAnswer (failure : Failure) : Json.Value :=
  .object (header "error" ++ [("error", (ErrorInfo.ofFailure failure).toJson)])

/-! What happened to one file of a run. -/

inductive FileStatus where
  | changed
  | unchanged
  | failed
  deriving DecidableEq, Repr

def FileStatus.name : FileStatus → String
  | .changed => "changed"
  | .unchanged => "unchanged"
  | .failed => "failed"

def FileStatus.ofName? (name : String) : Option FileStatus :=
  [FileStatus.changed, .unchanged, .failed].find? (·.name = name)

theorem FileStatus.ofName?_name (status : FileStatus) : ofName? status.name = some status := by
  cases status <;> rfl

structure FileReport where
  path : String
  status : FileStatus
  language : Option String
  diff : Option String
  error : Option ErrorInfo

namespace FileReport

def unchanged (path language : String) : FileReport :=
  ⟨path, .unchanged, some language, none, none⟩

def changed (path language diff : String) : FileReport :=
  ⟨path, .changed, some language, some diff, none⟩

def failed (path : String) (failure : Failure) : FileReport :=
  ⟨path, .failed, none, none, some (.ofFailure failure)⟩

def toJson (report : FileReport) : Json.Value :=
  .object ([("path", .string report.path), ("status", .string report.status.name)] ++
    optionalField "language" .string report.language ++
    optionalField "diff" .string report.diff ++
    optionalField "error" ErrorInfo.toJson report.error)

end FileReport

/-! Reading a file report back. An object may hold further names; a list holds all parts in order.
A part that may be absent may also be null. -/

def readOptional (read : Json.Value → Option α) : Json.Value → Option (Option α)
  | .null => some none
  | value => (read value).map some

def ErrorInfo.ofParts? (code message details : Json.Value) : Option ErrorInfo := do
  let code ← code.nat?
  let message ← message.string?
  let details ← readOptional some details
  if code < 256 then return ⟨code, message, details.map Json.Value.sorted⟩ else none

def ErrorInfo.ofJson? : Json.Value → Option ErrorInfo
  | .array [code, message, details] => ofParts? code message details
  | .object entries =>
    let value := Json.Value.object entries
    do ofParts? (← value.field? "code") (← value.field? "message")
        ((value.field? "details").getD .null)
  | _ => none

def FileReport.ofParts? (path status language diff error : Json.Value) : Option FileReport := do
  return {
    path := ← path.string?
    status := ← status.choice?.bind FileStatus.ofName?
    language := ← readOptional Json.Value.string? language
    diff := ← readOptional Json.Value.string? diff
    error := ← readOptional ErrorInfo.ofJson? error }

def FileReport.ofJson? : Json.Value → Option FileReport
  | .array [path, status, language, diff, error] => ofParts? path status language diff error
  | .object entries =>
    let value := Json.Value.object entries
    let optional (name : String) := (value.field? name).getD .null
    do ofParts? (← value.field? "path") (← value.field? "status") (optional "language")
        (optional "diff") (optional "error")
  | _ => none

/-! A whole run. -/

structure Summary where
  total : Nat
  changed : Nat
  unchanged : Nat
  failed : Nat
  deriving DecidableEq, Repr

def Summary.ofReports (reports : List FileReport) : Summary :=
  let count (status : FileStatus) := reports.countP (·.status = status)
  ⟨reports.length, count .changed, count .unchanged, count .failed⟩

def Summary.toJson (summary : Summary) : Json.Value :=
  .object [("total", .ofNat summary.total), ("changed", .ofNat summary.changed),
    ("unchanged", .ofNat summary.unchanged), ("failed", .ofNat summary.failed)]

structure RunReport where
  recipe : String
  dryRun : Bool
  files : List FileReport

namespace RunReport

def summary (report : RunReport) : Summary := .ofReports report.files

def status (report : RunReport) : String := if report.summary.failed = 0 then "ok" else "partial"

/-- A run with a failed file is itself a failure, reported after its answer. -/
def incomplete (report : RunReport) : Option Failure :=
  if report.summary.failed = 0 then none
  else some (.incompleteRun report.summary.failed report.summary.total)

def toJson (report : RunReport) : Json.Value :=
  .object (header report.status ++
    [("recipe", .string report.recipe), ("dry_run", .bool report.dryRun),
      ("files", .array (report.files.map FileReport.toJson)), ("summary", report.summary.toJson)])

end RunReport

/-! Printing a file, and listing visitors. -/

structure PrintReport where
  path : String
  language : String
  nodes : Nat
  text : String
  identical : Bool

def PrintReport.toJson (report : PrintReport) : Json.Value :=
  .object (header "ok" ++
    [("path", .string report.path), ("language", .string report.language),
      ("nodes", .ofNat report.nodes), ("text", .string report.text),
      ("identical", .bool report.identical)])

def visitorsAnswer (visitors : List (String × String)) : Json.Value :=
  .object (header "ok" ++
    [("visitors", .array (visitors.map fun (name, description) =>
      .object [("name", .string name), ("description", .string description)]))])

end Verbatim.Report
