import Verbatim.Recipe.Settings
import Verbatim.Traversal.Visitor

/-! Limits for the blank lines between declarations. Only line breaks that are already there are
adjusted: what stands on one line stays on one line. Margins, comments and the bodies of methods
are left alone. -/

namespace Verbatim

/-- Minimums hold on both sides of a declaration. Limits are words of 64 bits. -/
structure BlankLines where
  keepMaximumInDeclarations : UInt64
  keepMaximumBeforeEndOfBlock : UInt64
  minimumAfterPackage : UInt64
  minimumAfterImports : UInt64
  minimumAroundClass : UInt64
  minimumAfterClassHeader : UInt64
  minimumAroundField : UInt64
  minimumAroundMethod : UInt64
  minimumAroundInitializer : UInt64
  deriving DecidableEq, Repr

namespace BlankLines

def name : String := "blank-lines"

def summary : String := "Clamp blank lines between declarations to the style's limits"

def standard : BlankLines where
  keepMaximumInDeclarations := 2
  keepMaximumBeforeEndOfBlock := 2
  minimumAfterPackage := 1
  minimumAfterImports := 1
  minimumAroundClass := 1
  minimumAfterClassHeader := 0
  minimumAroundField := 0
  minimumAroundMethod := 1
  minimumAroundInitializer := 1

/-- All limits under the names of their parameters. -/
def limits (style : BlankLines) : List (String × UInt64) :=
  [("keepMaximumInDeclarations", style.keepMaximumInDeclarations),
    ("keepMaximumBeforeEndOfBlock", style.keepMaximumBeforeEndOfBlock),
    ("minimumAfterPackage", style.minimumAfterPackage),
    ("minimumAfterImports", style.minimumAfterImports),
    ("minimumAroundClass", style.minimumAroundClass),
    ("minimumAfterClassHeader", style.minimumAfterClassHeader),
    ("minimumAroundField", style.minimumAroundField),
    ("minimumAroundMethod", style.minimumAroundMethod),
    ("minimumAroundInitializer", style.minimumAroundInitializer)]

def parameters : List String := standard.limits.map Prod.fst

def ofSettings (settings : Settings) : Except RecipeFault BlankLines := do
  settings.expectOnly parameters
  let limit (parameter : String) (default : UInt64) : Except RecipeFault UInt64 :=
    return ((← settings.optionalNat parameter).map UInt64.ofNat).getD default
  return {
    keepMaximumInDeclarations :=
      ← limit "keepMaximumInDeclarations" standard.keepMaximumInDeclarations
    keepMaximumBeforeEndOfBlock :=
      ← limit "keepMaximumBeforeEndOfBlock" standard.keepMaximumBeforeEndOfBlock
    minimumAfterPackage := ← limit "minimumAfterPackage" standard.minimumAfterPackage
    minimumAfterImports := ← limit "minimumAfterImports" standard.minimumAfterImports
    minimumAroundClass := ← limit "minimumAroundClass" standard.minimumAroundClass
    minimumAfterClassHeader := ← limit "minimumAfterClassHeader" standard.minimumAfterClassHeader
    minimumAroundField := ← limit "minimumAroundField" standard.minimumAroundField
    minimumAroundMethod := ← limit "minimumAroundMethod" standard.minimumAroundMethod
    minimumAroundInitializer :=
      ← limit "minimumAroundInitializer" standard.minimumAroundInitializer }

/-! ## Bounds -/

/-- A maximum below the minimum gives way. -/
structure Bounds where
  minimum : UInt64
  maximum : UInt64
  deriving DecidableEq, Repr

def Bounds.clamp (bounds : Bounds) (count : Nat) : Nat :=
  max bounds.minimum.toNat (min count (max bounds.maximum.toNat bounds.minimum.toNat))

theorem Bounds.clamp_le (bounds : Bounds) (count : Nat) :
    bounds.clamp count ≤ max bounds.maximum.toNat bounds.minimum.toNat := by
  unfold clamp
  omega

def topLevelBounds (style : BlankLines) (previous node : Node) : Option Bounds :=
  if node.is .endOfFile then none
  else
    let minimum :=
      if previous.is .package then style.minimumAfterPackage
      else if previous.is .importDecl then
        if node.is .importDecl then 0 else style.minimumAfterImports
      else if previous.is .classDecl || node.is .classDecl then style.minimumAroundClass
      else 0
    some ⟨minimum, style.keepMaximumInDeclarations⟩

def around (style : BlankLines) (member : Node) : UInt64 :=
  match member.kind with
  | .classDecl => style.minimumAroundClass
  | .methodDecl => style.minimumAroundMethod
  | .variableDecl => style.minimumAroundField
  | .block | .statement => style.minimumAroundInitializer
  | _ => 0

def memberBounds (style : BlankLines) (previous node : Node) (isLast : Bool) : Option Bounds :=
  if isLast && node.text = some "\x7d" then some ⟨0, style.keepMaximumBeforeEndOfBlock⟩
  else if node.is .punctuation then none
  else
    let minimum :=
      if previous.isPunctuation "\x7b" then style.minimumAfterClassHeader
      else max (style.around node) (style.around previous)
    some ⟨minimum, style.keepMaximumInDeclarations⟩

/-! ## Adjusting -/

/-- How many blank lines a node shall have in front of it, if its present number is out of
bounds. -/
def wantedBlankLines (bounds : Option Bounds) (node : Node) : Option Nat := do
  let bounds ← bounds
  let leading ← node.leading
  if leading.newlines = 0 then none
  else
    let blank := leading.newlines - 1
    let wanted := bounds.clamp blank
    if wanted = blank then none else some wanted

/-- One line break more than blank lines. A word that counts the greatest number of blank lines runs
over, and no line break is left. -/
def lineBreaks (blank : Nat) : Nat := (UInt64.ofNat blank + 1).toNat

/-- What stands behind the last line break stays. -/
def withBlankLines (count : Nat) (node : Node) : Node :=
  let leading := node.leadingOrEmpty
  let margin := Text.lastLine leading.whitespace.toList
  node.withLeading
    (leading.withWhitespace (String.ofList (List.replicate (lineBreaks count) '\n' ++ margin)))

def wantedAll (bounds : Node → Node → Bool → Option Bounds) (previous : Node) :
    List Node → List (Option Nat)
  | [] => []
  | node :: rest =>
    wantedBlankLines (bounds previous node rest.isEmpty) node :: wantedAll bounds node rest

def applyWanted (wanted : Option Nat) (node : Node) : Node :=
  match wanted with
  | none => node
  | some count => withBlankLines count node

/-- More line breaks than this do not fit into a text. -/
def longestText : Nat := 9223372036854775807

def adjust (bounds : Node → Node → Bool → Option Bounds) (node : Node) : HookM Visit :=
  match node.children with
  | [] => return .keep
  | first :: rest =>
    let wanted := wantedAll bounds first rest
    if wanted.any fun count => count.any (longestText < lineBreaks ·) then
      throw (.panicked "capacity overflow")
    else if wanted.all Option.isNone then return .keep
    else return .replace (node.withChildren (first :: List.zipWith applyWanted wanted rest))

def visit (style : BlankLines) (node : Node) : HookM Visit := do
  match node.kind with
  | .sourceFile => adjust (fun previous child _ => style.topLevelBounds previous child) node
  | .block =>
    let parent := (← read).parent?
    if parent.any fun parent => parent.is .classDecl || parent.is .enumValue then
      adjust style.memberBounds node
    else return .skip
  | _ => return .keep

def visitor (style : BlankLines) : Visitor := .onVisit name style.visit

end BlankLines

end Verbatim
