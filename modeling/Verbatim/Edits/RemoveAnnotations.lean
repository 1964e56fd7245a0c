import Verbatim.Recipe.Settings
import Verbatim.Text.Lines
import Verbatim.Traversal.Visitor

/-! Removing annotations by name. When the first thing in a declaration is removed, the next one
moves into its place: its leading white space goes, its comments stay. -/

namespace Verbatim

structure RemoveAnnotations where
  /-- The name without the sign in front of it. -/
  annotationName : String
  deriving DecidableEq, Repr

namespace RemoveAnnotations

def name : String := "remove-annotation"

def summary : String := "Remove annotations named `name` from declarations"

def withoutSigns (written : String) : String :=
  String.ofList (written.toList.dropWhile (· = '@'))

def ofSettings (settings : Settings) : Except RecipeFault RemoveAnnotations := do
  settings.expectOnly ["name"]
  let annotationName := withoutSigns (← settings.requiredText "name")
  if annotationName.isEmpty then
    .error (settings.invalid "name" (.unusable "empty annotation name"))
  else return ⟨annotationName⟩

/-! Matching. -/

def isQualified (name : String) : Bool := name.toList.contains '.'

def simpleName (name : String) : List Char := (Text.splitAt '.' name.toList).getLastD []

/-- Two qualified names must be equal; otherwise equal simple names are enough. -/
def namesMatch (written wanted : String) : Bool :=
  written = wanted ||
    (!(isQualified written && isQualified wanted) && simpleName written = simpleName wanted)

def removes (edit : RemoveAnnotations) (node : Node) : Bool :=
  node.is .annotationUse &&
    (node.childrenOfKind .qualifiedName).head?.any fun name =>
      namesMatch name.tokensText edit.annotationName

/-! The message that is left at a declaration whose first child was removed. -/

def firstRemoved : String := "remove-annotation.strip-leading"

def visit (edit : RemoveAnnotations) (node : Node) : HookM Visit := do
  if !edit.removes node then return .keep
  else
    let trail ← read
    if trail.previousSibling?.isNone && trail.parent?.isSome then
      HookM.put 1 firstRemoved (.bool true)
    return .remove

def stripLeading (first : Node) : Node :=
  first.withLeading (first.leadingOrEmpty.withWhitespace "")

def stripFirst (node : Node) : Transform :=
  match node.children with
  | [] => .keep
  | first :: rest => .replace (node.withChildren (stripLeading first :: rest))

def leave (node : Node) : HookM Transform := do
  if !node.kind.isDeclaration then return .keep
  else
    match ← HookM.take firstRemoved .bool with
    | none => return .keep
    | some _ => return stripFirst node

def visitor (edit : RemoveAnnotations) : Visitor := ⟨name, edit.visit, leave⟩

end RemoveAnnotations

end Verbatim
