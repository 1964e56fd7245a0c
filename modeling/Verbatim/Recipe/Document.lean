import Verbatim.Json.Reader
import Verbatim.Recipe.Catalog
import Verbatim.Recipe.Run
import Verbatim.Text.Blank

/-! Recipe documents: a recipe as it is written down. Documents are strict: a part that is not
known, or that is given twice, is refused. -/

namespace Verbatim

inductive IterationMode where
  | singlePass
  | untilStable
  deriving DecidableEq, Repr

namespace IterationMode

def name : IterationMode → String
  | singlePass => "single-pass"
  | untilStable => "until-stable"

def ofName? (name : String) : Option IterationMode :=
  [singlePass, untilStable].find? (·.name = name)

theorem ofName?_name (mode : IterationMode) : ofName? mode.name = some mode := by
  cases mode <;> decide

end IterationMode

structure Document where
  name : String
  description : Option String
  mode : IterationMode
  maxCycles : Option Nat
  visitors : List Settings

/-! ## Recipes from documents -/

namespace Document

def iteration (document : Document) : Except DocumentFault Iteration :=
  match document.mode, document.maxCycles with
  | .singlePass, none => .ok .singlePass
  | .singlePass, some _ => .error .strayCycles
  | .untilStable, some 0 => .error .noCycles
  | .untilStable, cycles => .ok (.untilStable (cycles.getD Iteration.standardCycles))

def createVisitors (catalog : Catalog) : List Settings → Except RecipeFault (List Visitor)
  | [] => .ok []
  | settings :: rest => do
    let visitor ← catalog.create settings
    return visitor :: (← createVisitors catalog rest)

/-- The recipe, with all visitors set up. The first fault counts: in the name, in the iteration,
then in the visitors from first to last. -/
def toRecipe (document : Document) (catalog : Catalog) : Except RecipeFault Recipe := do
  if Text.isBlankText document.name.toList then .error (.document .blankName)
  else
    let iteration ← document.iteration.mapError .document
    return ⟨document.name, ← createVisitors catalog document.visitors, iteration⟩

end Document

/-! ## Reading documents -/

/-- How a document format gives the parts of a document. -/
structure DocumentFormat (Value : Type) where
  text? : Value → Option String
  choice? : Value → Option String
  nat? : Value → Option Nat
  isAbsent : Value → Bool
  items? : Value → Option (List Value)
  entries? : Value → Option (List (String × Value))
  toSetting : Value → Json.Value

def DocumentFormat.json : DocumentFormat Json.Value where
  text? := Json.Value.string?
  choice? := Json.Value.choice?
  nat? := Json.Value.nat?
  isAbsent := Json.Value.isNull
  items? := Json.Value.items?
  entries? := Json.Value.entries?
  toSetting := id

namespace DocumentFormat

variable {Value : Type} (format : DocumentFormat Value)

/-- A part that may be missing, or be there as an absent one. -/
def optional (read : Value → Option α) : Option Value → Option (Option α)
  | none => some none
  | some value => if format.isAbsent value then some none else (read value).map some

/-- A part that may be missing, but must not be absent if it is there. -/
def defaulted (read : Value → Option α) (default : α) : Option Value → Option α
  | none => some default
  | some value => read value

/-- One entry of the visitors: a type and any number of settings. -/
def visitor? (value : Value) : Option Settings := do
  let entries ← format.entries? value
  match entries.filter (·.1 = "type") with
  | [(_, type)] =>
    let settings := entries.filter (·.1 ≠ "type")
    return .ofList (← format.text? type)
      (settings.map fun entry => (entry.1, format.toSetting entry.2))
  | _ => none

def visitors? (value : Value) : Option (List Settings) := do
  (← format.items? value).mapM format.visitor?

def ofParts? (name description mode maxCycles visitors : Option Value) : Option Document := do
  return {
    name := ← name.bind format.text?
    description := ← format.optional format.text? description
    mode := ← defaulted (fun value => (format.choice? value).bind IterationMode.ofName?)
      .singlePass mode
    maxCycles := ← format.optional format.nat? maxCycles
    visitors := ← defaulted format.visitors? [] visitors }

def partNames : List String := ["name", "description", "iteration", "max-cycles", "visitors"]

def ofEntries? (entries : List (String × Value)) : Option Document :=
  let names := entries.map Prod.fst
  if names.Nodup ∧ names.all partNames.contains then
    format.ofParts? (entries.lookup "name") (entries.lookup "description")
      (entries.lookup "iteration") (entries.lookup "max-cycles") (entries.lookup "visitors")
  else none

end DocumentFormat

/-- A document in JSON is an object, or an array of the parts in order. -/
def Document.ofJson? (value : Json.Value) : Option Document :=
  match value with
  | .object entries => DocumentFormat.json.ofEntries? entries
  | .array items =>
    if items.length ≤ DocumentFormat.partNames.length then
      DocumentFormat.json.ofParts? items[0]? items[1]? items[2]? items[3]? items[4]?
    else none
  | _ => none

end Verbatim
