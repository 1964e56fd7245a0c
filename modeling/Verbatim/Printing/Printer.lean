import Verbatim.Printing.Layout
import Verbatim.Tree.Hoist

/-! Printing a tree. A node that is as it was read gives back its bytes; any other node is printed
part by part. The result of printing is a text and a tree: the tree as it was laid out, with all
formatting explicit. -/

namespace Verbatim

namespace Printer

/-- The text so far, and the margins of the lines on which the enclosing blocks open, innermost
first. -/
structure Page where
  text : String
  blockIndents : List String

def Page.put (page : Page) (text : String) : Page := { page with text := page.text ++ text }

def Page.blockIndent (page : Page) : String := page.blockIndents.headD ""

def Page.openBlock (page : Page) : Page :=
  { page with blockIndents := Text.lastLineIndent page.text :: page.blockIndents }

def Page.closeBlock (page : Page) : Page := { page with blockIndents := page.blockIndents.tail }

/-- Search results show as comments in front of the node. -/
def markerComment : Marker → String
  | .searchResult none => "/*~~>*/"
  | .searchResult (some description) => "/*~~(" ++ description ++ ")~~>*/"
  | .diagnostic .. | .tag _ => ""

def markerComments (markers : List Marker) : String := String.join (markers.map markerComment)

/-- A closing brace on the line of a made member moves to a line of its own. -/
def movesDown (brace : Node) (before : List Node) : Bool :=
  brace.isPunctuation "\x7d" &&
    before.head?.any (fun previous => !previous.is .punctuation && previous.leading.isNone) &&
    brace.leading.any fun leading => leading.newlines == 0 && leading.comments.isEmpty

def settleBrace (parent : Kind) (before : List Node) (page : Page) (node : Node) : Node :=
  if parent = .block && movesDown node before then
    node.withLeading (.ofWhitespace ("\n" ++ page.blockIndent))
  else node

/-- The leading formatting of a node: its own, or the one of the layout. -/
def leadingOf (head : NodeHead) (children : List Node) (place : Option Layout.Place) (page : Page) :
    Except PrintError Trivia :=
  match head.leading with
  | some leading => .ok leading
  | none => do
    return .ofWhitespace (← Layout.leading ⟨head, children⟩ place page.blockIndent)

def lacksText (head : NodeHead) (children : List Node) : Bool :=
  head.text.isNone && children.isEmpty && head.kind.isToken

mutual

/-- Print a node at its place among its siblings. A node's own head may have been changed by its
parent, its children never are. -/
def printHead (showMarkers : Bool) (page : Page) (place : Option Layout.Place) (head : NodeHead) :
    List Node → Except PrintError (Node × Page)
  | children =>
    match head.origin with
    | some origin => .ok (⟨head, children⟩, page.put origin.text)
    | none => do
      let leading ← leadingOf head children place page
      let page := page.put leading.text
      let page := if showMarkers then page.put (markerComments head.markers) else page
      if lacksText head children then .error (.missingText head.kind head.id)
      else
        let page := page.put (head.text.getD "")
        let isBlock := head.kind = .block
        let page := if isBlock then page.openBlock else page
        let (resolved, page) ← printChildren showMarkers page head.kind [] children
        let page := if isBlock then page.closeBlock else page
        let page := page.put head.trailing.text
        return (⟨{ head with leading := some leading }, resolved⟩, page)

/-- `before` holds the siblings in front as they were given, nearest first. -/
def printChildren (showMarkers : Bool) (page : Page) (parent : Kind) (before : List Node) :
    List Node → Except PrintError (List Node × Page)
  | [] => .ok ([], page)
  | ⟨head, children⟩ :: rest => do
    let settled := settleBrace parent before page ⟨head, children⟩
    let (node, page) ← printHead showMarkers page
      (some ⟨parent, before⟩) settled.toNodeHead children
    let (rest, page) ← printChildren showMarkers page parent (⟨head, children⟩ :: before) rest
    return (node :: rest, page)

end

def layOut (showMarkers : Bool) (root : Node) : Except PrintError (Node × String) := do
  let (resolved, page) ← printHead showMarkers ⟨"", []⟩ none root.toNodeHead root.children
  return (resolved, page.text)

end Printer

namespace Node

def print (node : Node) : Except PrintError String := (Printer.layOut false node).map Prod.snd

def printMarked (node : Node) : Except PrintError String := (Printer.layOut true node).map Prod.snd

/-- Printed without the margin and the blank lines around it. -/
def printTrimmed (node : Node) : Except PrintError String := node.print.map Text.trimIndent

/-- The tree as it is printed: all formatting is explicit, and hoisted as in a tree that was
read. -/
def resolveFormatting (node : Node) : Except PrintError Node :=
  (Printer.layOut false node).map fun (resolved, _) => resolved.hoist

end Node

end Verbatim
