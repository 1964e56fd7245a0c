import Verbatim.Recipe.Settings
import Verbatim.Traversal.Visitor

/-! Searching. Identifiers that are found get a marker; their text stays. -/

namespace Verbatim

structure FindIdentifier where
  spelling : String
  description : Option String
  deriving DecidableEq, Repr

namespace FindIdentifier

def name : String := "find-identifier"

def summary : String := "Mark identifier tokens spelled `name` as search results"

def ofSettings (settings : Settings) : Except RecipeFault FindIdentifier := do
  settings.expectOnly ["name", "description"]
  return ⟨← settings.requiredText "name", ← settings.optionalText "description"⟩

def marker (search : FindIdentifier) : Marker := .searchResult search.description

def visit (search : FindIdentifier) (node : Node) : Visit :=
  if node.is .identifier && node.text = some search.spelling && search.marker ∉ node.markers then
    .replace (node.withMarker search.marker)
  else .keep

def visitor (search : FindIdentifier) : Visitor := .onVisit name fun node =>
    return search.visit node

end FindIdentifier

end Verbatim
