import Verbatim.Java.Word
import Verbatim.Recipe.Settings
import Verbatim.Traversal.Visitor

/-! Renaming. Identifiers are renamed by their spelling, wherever they stand. -/

namespace Verbatim

structure RenameIdentifier where
  old : String
  new : String
  deriving DecidableEq, Repr

namespace RenameIdentifier

def name : String := "rename-identifier"

def summary : String := "Rename every identifier token spelled `from` to `to`"

def checkName (settings : Settings) (parameter spelling : String) : Except RecipeFault Unit :=
  if Java.isIdentifier spelling then .ok ()
  else .error (settings.invalid parameter (.unusable ("`" ++ spelling ++ "` is not an identifier")))

def ofSettings (settings : Settings) : Except RecipeFault RenameIdentifier := do
  settings.expectOnly ["from", "to"]
  let old ← settings.requiredText "from"
  let new ← settings.requiredText "to"
  checkName settings "from" old
  checkName settings "to" new
  return ⟨old, new⟩

def visit (edit : RenameIdentifier) (node : Node) : Visit :=
  if node.is .identifier && node.text = some edit.old then .replace (node.withText edit.new)
  else .keep

def visitor (edit : RenameIdentifier) : Visitor := .onVisit name fun node => return edit.visit node

end RenameIdentifier

end Verbatim
