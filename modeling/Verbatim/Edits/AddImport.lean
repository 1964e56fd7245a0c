import Verbatim.Java.Made
import Verbatim.Java.Word
import Verbatim.Recipe.Settings
import Verbatim.Traversal.Visitor

/-! Adding an import to a file, unless the file can already see what it would import. -/

namespace Verbatim

structure AddImport where
  /-- The whole name, its parts between dots. -/
  imported : String
  isStatic : Bool
  deriving DecidableEq, Repr

namespace AddImport

def name : String := "add-import"

def summary : String := "Import `typeName` (optionally `static`) unless already imported"

/-! Names that can be imported have at least two parts. The last one may be a star. -/

def areParts : List (List Char) → Bool
  | [] => true
  | [final] => final = ['*'] || Java.isWord final
  | part :: next :: rest => Java.isWord part && areParts (next :: rest)

def isQualified (name : String) : Bool :=
  let parts := Text.splitAt '.' name.toList
  parts.length > 1 && areParts parts

def ofSettings (settings : Settings) : Except RecipeFault AddImport := do
  settings.expectOnly ["typeName", "static"]
  let imported ← settings.requiredText "typeName"
  if !isQualified imported then
    .error (settings.invalid "typeName"
      (.unusable ("`" ++ imported ++ "` is not a qualified name")))
  else return ⟨imported, (← settings.optionalBool "static").getD false⟩

/-! What a file can see. -/

/-- Everything in front of the last dot, nothing if there is no dot. -/
def ownerOf (name : String) : String :=
  String.ofList (Text.joinWith '.' (Text.splitAt '.' name.toList).dropLast)

def owner (edit : AddImport) : String := ownerOf edit.imported

def isStaticImport (declaration : Node) : Bool :=
  declaration.children.any fun child => child.is .keyword && child.text = some "static"

def nameIn (declaration : Node) : Option String :=
  (declaration.childrenOfKind .qualifiedName).head?.map Node.tokensText

/-- The import has the same name, or stands for all names of the owner. -/
def isCoveredBy (edit : AddImport) (declaration : Node) : Bool :=
  isStaticImport declaration = edit.isStatic &&
    (nameIn declaration).any fun name => name = edit.imported || name = edit.owner ++ ".*"

def corePackage : String := "java.lang"

def packageOf (file : Node) : Option String :=
  (file.childrenOfKind .package).head?.bind nameIn

def isImplicitlyVisible (edit : AddImport) (file : Node) : Bool :=
  !edit.isStatic && (edit.owner = corePackage || packageOf file = some edit.owner)

def isVisible (edit : AddImport) (file : Node) : Bool :=
  edit.isImplicitlyVisible file || (file.childrenOfKind .importDecl).any edit.isCoveredBy

/-! The place of the new import: behind the last import, else behind the package, else at the top.
The first import of a file is separated from what follows it by a blank line. -/

def separate (next : Node) : Node :=
  if next.is .endOfFile || 2 ≤ next.leadingOrEmpty.newlines then next
  else next.withLeading (next.leadingOrEmpty.withWhitespace "\n\n")

def separateFirst : List Node → List Node
  | [] => []
  | next :: rest => separate next :: rest

def splitBehindLast (kind : Kind) (children : List Node) : List Node × List Node :=
  let (behind, upTo) := children.reverse.span fun child => !child.is kind
  (upTo.reverse, behind.reverse)

/-- The children up to the first one of a kind, if there is one, and those behind it. -/
def splitBehindFirst (kind : Kind) (children : List Node) : List Node × List Node :=
  match children.span fun child => !child.is kind with
  | (before, first :: behind) => (before ++ [first], behind)
  | (_, []) => ([], children)

def place (made : Node) (children : List Node) : List Node :=
  match splitBehindLast .importDecl children with
  | ([], _) =>
    let (upTo, behind) := splitBehindFirst .package children
    upTo ++ made :: separateFirst behind
  | (upTo, behind) => upTo ++ made :: behind

def made (edit : AddImport) : Node := Java.Made.importDecl edit.imported edit.isStatic

def visit (edit : AddImport) (node : Node) : HookM Visit := do
  if !node.is .sourceFile then return .keep
  else if edit.isVisible node then return .skip
  else
    let declaration ← HookM.number edit.made
    return ⟨.replace (node.withChildren (place declaration node.children)), .skipChildren⟩

def visitor (edit : AddImport) : Visitor := .onVisit name edit.visit

end AddImport

end Verbatim
