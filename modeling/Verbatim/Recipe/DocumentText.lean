import Verbatim.Recipe.Document
import Verbatim.Toml.Reader

/-! Recipe documents as texts, in either of two notations. Settings are JSON values in both: what
only TOML can say becomes the JSON value that comes nearest. -/

namespace Verbatim

namespace Toml

/-- The one name in an object that stands for a date. -/
def dateTimeName : String := "$__toml_private_datetime"

mutual

def Value.toJson : Value → Json.Value
  | .text value => .string value
  | .integer value => .whole value
  | .float none => .null
  | .float (some value) => .number (.double value)
  | .bool value => .bool value
  | .dateTime value => .object [(dateTimeName, .string value)]
  | .array items => .array (itemsToJson items)
  | .table entries => .object (entriesToJson entries)

def itemsToJson : List Value → List Json.Value
  | [] => []
  | item :: rest => item.toJson :: itemsToJson rest

def entriesToJson : List (String × Value) → List (String × Json.Value)
  | [] => []
  | (name, value) :: rest => (name, value.toJson) :: entriesToJson rest

end

end Toml

def DocumentFormat.toml : DocumentFormat Toml.Value where
  text? := Toml.Value.text?
  choice? := Toml.Value.choice?
  nat? := Toml.Value.nat?
  isAbsent _ := false
  items? := Toml.Value.items?
  entries? := Toml.Value.entries?
  toSetting := Toml.Value.toJson

inductive DocumentNotation where
  | toml
  | json
  deriving DecidableEq, Repr

/-- How texts of either notation are read as values. -/
structure Readers where
  toml : String → Option Toml.Value
  json : String → Option Json.Value

def Readers.standard : Readers := ⟨Toml.parse, Json.parse⟩

namespace Document

def ofToml? (value : Toml.Value) : Option Document :=
  value.entries?.bind DocumentFormat.toml.ofEntries?

def readText? (readers : Readers) (text : String) : DocumentNotation → Option Document
  | .toml => (readers.toml text).bind ofToml?
  | .json => (readers.json text).bind ofJson?

def ofText (readers : Readers) (text : String) (written : DocumentNotation) :
    Except RecipeFault Document :=
  match readText? readers text written with
  | some document => .ok document
  | none => .error (.document .malformed)

end Document

end Verbatim
