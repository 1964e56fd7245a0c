import Verbatim.Json.Value

/-! Remarks on nodes. They are not part of the text unless a printer is asked to show them. -/

namespace Verbatim

inductive Severity where
  | info
  | warning
  | error
  deriving DecidableEq, Repr

def Severity.name : Severity → String
  | .info => "info"
  | .warning => "warning"
  | .error => "error"

def Severity.ofName? (name : String) : Option Severity :=
  [Severity.info, .warning, .error].find? (·.name = name)

inductive Marker where
  | searchResult (description : Option String)
  | diagnostic (severity : Severity) (message : String)
  | tag (name : String)
  deriving DecidableEq, Repr

namespace Marker

def isTag : Marker → Bool
  | tag _ => true
  | _ => false

/-- The marker in a list of markers, each of which is listed once. -/
def addTo (markers : List Marker) (marker : Marker) : List Marker :=
  if marker ∈ markers then markers else markers ++ [marker]

theorem mem_addTo (markers : List Marker) (marker other : Marker) :
    other ∈ addTo markers marker ↔ other ∈ markers ∨ other = marker := by
  unfold addTo
  split
  · constructor
    · exact .inl
    · rintro (member | rfl) <;> assumption
  · simp

/-- Each marker once, in the order of first mention. -/
def collect (markers : List Marker) : List Marker := markers.foldl addTo []

def searchResults (markers : List Marker) : List (Option String) :=
  markers.filterMap fun
    | searchResult description => some description
    | _ => none

def toJson : Marker → Json.Value
  | searchResult description =>
    .object [("type", .string "search-result"), ("description", .ofOption .string description)]
  | diagnostic severity message =>
    .object [("type", .string "diagnostic"), ("severity", .string severity.name),
      ("message", .string message)]
  | tag name => .object [("type", .string "tag"), ("name", .string name)]

/-- Names that do not belong to the marker are passed over. -/
def ofJson? (value : Json.Value) : Option Marker := do
  let text (name : String) := (value.field? name).bind Json.Value.string?
  match ← text "type" with
  | "search-result" =>
    match (value.field? "description").getD .null with
    | .null => return searchResult none
    | .string description => return searchResult (some description)
    | _ => none
  | "diagnostic" =>
    let severity ← ((value.field? "severity").bind Json.Value.choice?).bind Severity.ofName?
    return diagnostic severity (← text "message")
  | "tag" => return tag (← text "name")
  | _ => none

end Marker

end Verbatim
