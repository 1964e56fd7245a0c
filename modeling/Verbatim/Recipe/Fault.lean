import Verbatim.Failure
import Verbatim.Json.Writer

/-! What can be wrong with a recipe before it is run. -/

namespace Verbatim

inductive ParameterFault where
  /-- The visitor has no parameter of that name. -/
  | unknown
  | notText (found : Json.Value)
  | notBool (found : Json.Value)
  | notNatural (found : Json.Value)
  /-- The value has the right type, but the visitor cannot use it. -/
  | unusable (reason : String)

def ParameterFault.message : ParameterFault → String
  | unknown => "unknown parameter"
  | notText found => "expected a string, found " ++ found.compact
  | notBool found => "expected a boolean, found " ++ found.compact
  | notNatural found => "expected a non-negative integer, found " ++ found.compact
  | unusable reason => reason

inductive DocumentFault where
  /-- The text is not written in its format, or does not have the parts of a document. -/
  | malformed
  | blankName
  /-- A number of cycles is given, but cycles are not repeated. -/
  | strayCycles
  | noCycles
  deriving DecidableEq, Repr

def DocumentFault.message : DocumentFault → String
  | malformed => "not a recipe document"
  | blankName => "recipe name must not be empty"
  | strayCycles => "max-cycles requires iteration = \"until-stable\""
  | noCycles => "max-cycles must be at least 1"

inductive RecipeFault where
  | unknownVisitor (name : String)
  | missingParameter (visitor parameter : String)
  | invalidParameter (visitor parameter : String) (fault : ParameterFault)
  | document (fault : DocumentFault)
  | unreadable (path reason : String)

namespace RecipeFault

def message : RecipeFault → String
  | unknownVisitor name => "unknown visitor `" ++ name ++ "`"
  | missingParameter visitor parameter =>
    "visitor `" ++ visitor ++ "` is missing required parameter `" ++ parameter ++ "`"
  | invalidParameter visitor parameter fault =>
    "visitor `" ++ visitor ++ "` parameter `" ++ parameter ++ "` is invalid: " ++ fault.message
  | document fault => "invalid recipe document: " ++ fault.message
  | unreadable path reason => "cannot read recipe " ++ path ++ ": " ++ reason

def toFailure (fault : RecipeFault) : Failure := .badRecipe fault.message

end RecipeFault

end Verbatim
