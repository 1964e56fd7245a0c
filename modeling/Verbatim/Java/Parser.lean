import Verbatim.Java.Rules
import Verbatim.Tree.Hoist
import Verbatim.Tree.Seal

/-! Reading a source file into a tree. -/

namespace Verbatim.Java

/-- How deep rules may call each other. Between two tokens no rule calls itself again, so for each
token there are at most as many calls as there are rules. -/
def callDepth (tokens : List Lexeme) : Nat := (tokens.length + 1) * Rule.every.length

def readTokens (tokens : List Lexeme) : Outcome :=
  Grammar.runRule Rule.body (callDepth tokens) .compilationUnit tokens

def sortLabels (labels : List String) : List String := labels.mergeSort fun a b => decide (a ≤ b)

/-- A text is refused at the furthest place where anything else could have been read. -/
def refusal (text : String) (furthest : Furthest) : ParseError :=
  ⟨none, .expected (sortLabels furthest.wanted), furthest.offset,
    Text.positionAt text furthest.offset⟩

/-- The tree as the grammar builds it: formatting in front of tokens only, no origins. -/
def readTree (text : String) : Except ParseError Node :=
  let outcome := readTokens (lexemes text)
  match outcome.result with
  | some ([root], _) => .ok root
  | _ => .error (refusal text outcome.furthest)

def parse (text : String) : Except ParseError Node := do
  (← readTree text).hoist.sealAgainst text

end Verbatim.Java
