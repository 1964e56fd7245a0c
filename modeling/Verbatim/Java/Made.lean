import Verbatim.Tree.Node

/-! Made nodes. They have no formatting of their own, so that a printer lays them out wherever they
are put. -/

namespace Verbatim.Java.Made

def identifier (name : String) : Node := .token .identifier name

def keyword (word : String) : Node := .token .keyword word

def punctuation (text : String) : Node := .token .punctuation text

def nameSegment (segment : String) : Node :=
  if segment = "*" then punctuation "*" else identifier segment

def qualifiedName (dotted : String) : Node :=
  .branch .qualifiedName
    (((Text.splitString '.' dotted).map nameSegment).intersperse (punctuation "."))

def importDecl (name : String) (isStatic : Bool) : Node :=
  .branch .importDecl
    ([keyword "import"] ++ (if isStatic then [keyword "static"] else []) ++
      [qualifiedName name, punctuation ";"])

/-- An annotation without arguments. -/
def annotationUse (name : String) : Node :=
  .branch .annotationUse [punctuation "@", qualifiedName name]

/-- A field of type `int` without a value. -/
def intField (name : String) : Node :=
  .branch .variableDecl
    [.branch .typeRef [keyword "int"], .branch .declarator [identifier name], punctuation ";"]

end Verbatim.Java.Made
