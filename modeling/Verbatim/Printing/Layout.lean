import Verbatim.Failure
import Verbatim.Tree.Node

/-! The formatting that a printer puts in front of a made node. It depends on the kind of the node,
on the kind of its parent and on the sibling before it:

* at the top of a file, one line break before a package or between imports, else a blank line;
* inside a block, a line of its own with the margin of the members before it;
* inside a line, one space, except around brackets, dots, commas and the like;
* a custom kind brings its own.

The root and first children have none. -/

namespace Verbatim

inductive PrintError where
  /-- A custom kind without formatting of its own. -/
  | missingFormatting (kind : Kind) (node : NodeId)
  /-- A token without text. -/
  | missingText (kind : Kind) (node : NodeId)
  deriving DecidableEq, Repr

namespace PrintError

def node : PrintError → NodeId
  | missingFormatting _ node | missingText _ node => node

def message : PrintError → String
  | missingFormatting kind node =>
    "no default formatting for synthesized " ++ kind.display ++ " " ++ node.display
  | missingText kind node =>
    "synthesized " ++ kind.display ++ " " ++ node.display ++ " has neither text nor children"

def toFailure (error : PrintError) : Failure := .unprintable error.message

end PrintError

namespace Layout

/-- One step of indentation. -/
def indentStep : String := "    "

/-! Inside a line. -/

/-- Nothing follows an opening bracket, a dot or an at sign. -/
def afterSibling (previous : Node) : String :=
  if previous.is .punctuation && (["(", "[", "<", ".", "@"].contains
    (previous.text.getD "")) then ""
  else " "

def endsName (previous : Node) : Bool :=
  previous.is .identifier || previous.is .qualifiedName || previous.is .typeArguments

/-- Punctuation that stays close to whatever comes before it. -/
def clinging : List String := [",", ";", ")", "]", ">", ".", "(", "[", "..."]

def inline (node previous : Node) : String :=
  match node.kind with
  | .punctuation =>
    let text := node.text.getD ""
    if clinging.contains text || (text == "<" && endsName previous) then ""
    else afterSibling previous
  | .parameters | .typeArguments => ""
  | .typeParameters | .group => if endsName previous then "" else afterSibling previous
  | _ => afterSibling previous

/-! At the top of a file and inside a block. -/

def topLevel (node previous : Node) : String :=
  match node.kind with
  | .package => "\n"
  | .importDecl => if previous.is .importDecl then "\n" else "\n\n"
  | .endOfFile => ""
  | _ => "\n\n"

/-- The margin of the nearest member in front that has one, or one step more than the block. -/
def memberIndent (before : List Node) (blockIndent : String) : String :=
  let members := before.filter fun sibling => !sibling.is .punctuation
  (members.findSome? fun sibling => sibling.leading.bind Trivia.indent).getD
    (blockIndent ++ indentStep)

def blockMember (node previous : Node) (before : List Node) (blockIndent : String) : String :=
  let opens := previous.isPunctuation "\x7b"
  if node.isPunctuation "\x7d" then if opens then "" else "\n" ++ blockIndent
  else if node.is .punctuation then inline node previous
  else
    let spread := (node.is .classDecl || node.is .methodDecl) && !opens
    (if spread then "\n\n" else "\n") ++ memberIndent before blockIndent

structure Place where
  parent : Kind
  before : List Node

/-- The formatting in front of a node that has none, none standing for the root. -/
def leading (node : Node) (place : Option Place) (blockIndent : String) :
    Except PrintError String :=
  let previous := place.bind fun place => place.before.head?.map fun sibling => (place, sibling)
  match node.kind, previous with
  | .custom custom, previous =>
    match custom.defaultLeading with
    | none => .error (.missingFormatting node.kind node.id)
    | some text => .ok (if previous.isNone then "" else text)
  | _, none => .ok ""
  | _, some (place, sibling) =>
    .ok (match place.parent with
      | .qualifiedName => ""
      | .sourceFile => topLevel node sibling
      | .block => blockMember node sibling place.before blockIndent
      | _ => inline node sibling)

end Layout

end Verbatim
