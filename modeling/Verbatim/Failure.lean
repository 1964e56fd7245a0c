import Verbatim.Json.Value
import Verbatim.Text.Position

/-! What can go wrong in a command, as its answer shows it: a numbered cause, a message and for
some causes further details. -/

namespace Verbatim

/-- Causes have stable numbers, which are also the exit status of a command. -/
inductive Cause where
  | invalidArguments
  | parsing
  | recipe
  | visitor
  | printing
  | internal
  deriving DecidableEq, Repr

def Cause.code : Cause → Nat
  | .invalidArguments => 2
  | .parsing => 3
  | .recipe => 4
  | .visitor => 5
  | .printing => 6
  | .internal => 10

inductive Failure where
  | invalidArguments (reason : String)
  | fileNotFound (path : String)
  | unreadable (path : String) (position : Position) (reason : String)
  | badRecipe (reason : String)
  | visitorFailed (visitor reason : String)
  | unprintable (reason : String)
  | incompleteRun (failed total : Nat)
  | fileAccess (path reason : String)
  | internal (reason : String)
  deriving DecidableEq, Repr

namespace Failure

def cause : Failure → Cause
  | .invalidArguments _ | .fileNotFound _ => .invalidArguments
  | .unreadable .. => .parsing
  | .badRecipe _ => .recipe
  | .visitorFailed .. | .incompleteRun .. => .visitor
  | .unprintable _ => .printing
  | .fileAccess .. | .internal _ => .internal

def code (failure : Failure) : Nat := failure.cause.code

def message : Failure → String
  | .invalidArguments reason => "invalid arguments: " ++ reason
  | .fileNotFound path => "file not found: " ++ path
  | .unreadable path position reason =>
    "parse failure in " ++ path ++ " at " ++ position.display ++ ": " ++ reason
  | .badRecipe reason => "recipe construction failed: " ++ reason
  | .visitorFailed visitor reason => "visitor `" ++ visitor ++ "` failed: " ++ reason
  | .unprintable reason => "printer invariant violated: " ++ reason
  | .incompleteRun failed total => toString failed ++ " of " ++ toString total ++ " files failed"
  | .fileAccess path reason => "I/O error on " ++ path ++ ": " ++ reason
  | .internal reason => "internal error: " ++ reason

/-- Details are listed by name. -/
def details : Failure → Option Json.Value
  | .fileNotFound path | .fileAccess path _ => some (.object [("path", .string path)])
  | .unreadable path position _ =>
    some (.object [("column", .ofNat position.column), ("line", .ofNat position.line),
      ("path", .string path)])
  | .visitorFailed visitor _ => some (.object [("visitor", .string visitor)])
  | .incompleteRun failed total =>
    some (.object [("failed", .ofNat failed), ("total", .ofNat total)])
  | .invalidArguments _ | .badRecipe _ | .unprintable _ | .internal _ => none

end Failure

end Verbatim
