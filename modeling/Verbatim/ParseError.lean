import Verbatim.Failure
import Verbatim.Text.Quoted
import Verbatim.Tree.Kind

/-! Texts that cannot be turned into a tree. -/

namespace Verbatim

inductive ParseFault where
  /-- None of these could be read; they are listed in increasing order. -/
  | expected (wanted : List String)
  /-- The tree has a node whose formatting was never decided. -/
  | unformatted (kind : Kind)
  /-- The tree holds a piece that the text does not continue with. -/
  | mismatch (piece : String)
  /-- The text goes on behind the tree. -/
  | uncovered
  deriving DecidableEq, Repr

namespace ParseFault

def shownCharacters : Nat := 24

def message : ParseFault → String
  | expected [] => "expected nothing"
  | expected [single] => "expected " ++ single
  | expected wanted => "expected one of " ++ String.intercalate ", " wanted
  | unformatted kind => "parsed " ++ kind.display ++ " node has no prefix"
  | mismatch piece =>
    "tree text " ++ Text.quoted (String.ofList (piece.toList.take shownCharacters)) ++
      " does not match the input"
  | uncovered => "tree does not cover the end of the input"

end ParseFault

structure ParseError where
  path : Option String
  fault : ParseFault
  offset : Nat
  position : Position
  deriving DecidableEq, Repr

namespace ParseError

def message (error : ParseError) : String := error.fault.message

/-- Texts that come from no file are called `<input>`. -/
def shownPath (error : ParseError) : String := error.path.getD "<input>"

def display (error : ParseError) : String :=
  error.shownPath ++ ":" ++ error.position.display ++ ": " ++ error.message

def withPath (error : ParseError) (path : Option String) : ParseError :=
  { error with path := path <|> error.path }

def toFailure (error : ParseError) : Failure :=
  .unreadable error.shownPath error.position error.message

end ParseError

end Verbatim
