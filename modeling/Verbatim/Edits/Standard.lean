import Verbatim.Edits.AddImport
import Verbatim.Edits.BlankLines
import Verbatim.Edits.ChangeText
import Verbatim.Edits.FindIdentifier
import Verbatim.Edits.RemoveAnnotations
import Verbatim.Edits.RenameIdentifier
import Verbatim.Recipe.Catalog

/-! The catalog of all edits, and the part of it that works for every language. -/

namespace Verbatim.Catalog

def common : Catalog :=
  .ofList
    [(ChangeText.name, ⟨ChangeText.summary, fun settings => do
        return (← ChangeText.ofSettings settings).visitor⟩),
      (RenameIdentifier.name, ⟨RenameIdentifier.summary, fun settings => do
        return (← RenameIdentifier.ofSettings settings).visitor⟩),
      (FindIdentifier.name, ⟨FindIdentifier.summary, fun settings => do
        return (← FindIdentifier.ofSettings settings).visitor⟩)]

def withJava (catalog : Catalog) : Catalog :=
  catalog
    |>.insert RemoveAnnotations.name ⟨RemoveAnnotations.summary, fun settings => do
      return (← RemoveAnnotations.ofSettings settings).visitor⟩
    |>.insert AddImport.name ⟨AddImport.summary, fun settings => do
      return (← AddImport.ofSettings settings).visitor⟩
    |>.insert BlankLines.name ⟨BlankLines.summary, fun settings => do
      return (← BlankLines.ofSettings settings).visitor⟩

def standard : Catalog := common.withJava

example : standard.names =
    ["add-import", "blank-lines", "change-text", "find-identifier", "remove-annotation",
      "rename-identifier"] := by decide

end Verbatim.Catalog
