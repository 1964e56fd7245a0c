import Verbatim.Recipe.Settings
import Verbatim.Traversal.Visitor

/-! Replacing the whole text of a file without structure. -/

namespace Verbatim

structure ChangeText where
  text : String
  deriving DecidableEq, Repr

namespace ChangeText

def name : String := "change-text"

def summary : String := "Replace the whole text of a plain text file (`toText`)"

def ofSettings (settings : Settings) : Except RecipeFault ChangeText := do
  settings.expectOnly ["toText"]
  return ⟨← settings.requiredText "toText"⟩

def visit (edit : ChangeText) (node : Node) : Visit :=
  if node.is .plainText && node.text ≠ some edit.text then .replace (node.withText edit.text)
  else .keep

def visitor (edit : ChangeText) : Visitor := .onVisit name fun node => return edit.visit node

end ChangeText

end Verbatim
