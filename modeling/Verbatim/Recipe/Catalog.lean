import Verbatim.Recipe.Settings
import Verbatim.Traversal.Visitor

/-! The visitors that a recipe can name. -/

namespace Verbatim

/-- A visitor that is still to be set up. -/
structure VisitorKind where
  summary : String
  make : Settings → Except RecipeFault Visitor

abbrev Catalog := Entries VisitorKind

namespace Catalog

def create (catalog : Catalog) (settings : Settings) : Except RecipeFault Visitor :=
  match catalog.get? settings.visitor with
  | none => .error (.unknownVisitor settings.visitor)
  | some kind => kind.make settings

def describe (catalog : Catalog) : List (String × String) :=
  catalog.toList.map fun (name, kind) => (name, kind.summary)

end Catalog

end Verbatim
