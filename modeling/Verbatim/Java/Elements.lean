import Verbatim.Java.Parser

/-! Reading a source file into elements. Every node gets the next free number as soon as it is
built, also on a way that leads nowhere. What some rules gave at a place is kept, so another
attempt there gets the same nodes with the same numbers. -/

namespace Verbatim.Java

/-! ## Ledgers -/

/-- What a rule gave when so many tokens were left. -/
structure Kept (Rule : Type) where
  name : Rule
  left : Nat
  result : Option (List Node × List Lexeme)

/-- The next free number, and all that was kept. -/
structure Ledger (Rule : Type) where
  next : Nat
  kept : List (Kept Rule)

/-- What was read, and what has been given out and kept by then. Nothing is given back when an
attempt fails. -/
structure Attempt (Rule : Type) where
  result : Option (List Node × List Lexeme)
  ledger : Ledger Rule

section

variable {Rule : Type}

namespace Ledger

def find? [DecidableEq Rule] (ledger : Ledger Rule) (name : Rule) (left : Nat) :
    Option (Kept Rule) :=
  ledger.kept.find? fun entry => entry.name = name && entry.left = left

/-- A node is built and gets the next number. -/
def enter (ledger : Ledger Rule) (node : Node) (rest : List Lexeme) : Attempt Rule :=
  ⟨some ([node.withId ⟨ledger.next⟩], rest), { ledger with next := ledger.next + 1 }⟩

end Ledger

namespace Attempt

def failed (ledger : Ledger Rule) : Attempt Rule := ⟨none, ledger⟩

/-- Go on with the tokens that are left. -/
def andThen (first : Attempt Rule) (next : List Lexeme → Ledger Rule → Attempt Rule) :
    Attempt Rule :=
  match first.result with
  | none => first
  | some (nodes, rest) =>
    let second := next rest first.ledger
    ⟨second.result.map fun (more, rest) => (nodes ++ more, rest), second.ledger⟩

def orElse (first : Attempt Rule) (other : Ledger Rule → Attempt Rule) : Attempt Rule :=
  match first.result with
  | some _ => first
  | none => other first.ledger

/-- If the first fits, the next must follow it; only if it does not fit, the other is tried. -/
def ifFits (first : Attempt Rule) (next : List Lexeme → Ledger Rule → Attempt Rule)
    (other : Ledger Rule → Attempt Rule) : Attempt Rule :=
  match first.result with
  | some _ => first.andThen next
  | none => other first.ledger

/-- What does not fit is left out. -/
def orNothing (attempt : Attempt Rule) (tokens : List Lexeme) : Attempt Rule :=
  ⟨attempt.result <|> some ([], tokens), attempt.ledger⟩

/-- Only whether something fits is seen. -/
def ahead (attempt : Attempt Rule) (tokens : List Lexeme) : Attempt Rule :=
  ⟨if attempt.result.isSome then some ([], tokens) else none, attempt.ledger⟩

def notAhead (attempt : Attempt Rule) (tokens : List Lexeme) : Attempt Rule :=
  ⟨if attempt.result.isSome then none else some ([], tokens), attempt.ledger⟩

/-- What was read becomes the children of one node. -/
def under (attempt : Attempt Rule) (kind : Kind) : Attempt Rule :=
  match attempt.result with
  | none => attempt
  | some (nodes, rest) => attempt.ledger.enter (Grammar.grow kind nodes) rest

/-- Keep what a rule gave. -/
def keep (attempt : Attempt Rule) (name : Rule) (left : Nat) : Attempt Rule :=
  ⟨attempt.result,
    { attempt.ledger with kept := ⟨name, left, attempt.result⟩ :: attempt.ledger.kept }⟩

end Attempt

/-! ## Building -/

/-- Build again and again until the step does not fit. -/
def repeatBuild (step : List Lexeme → Ledger Rule → Attempt Rule) :
    (bound tokens : List Lexeme) → Ledger Rule → Attempt Rule
  | [], tokens, ledger => ⟨some ([], tokens), ledger⟩
  | _ :: bound, tokens, ledger =>
    let attempt := step tokens ledger
    match attempt.result with
    | none => ⟨some ([], tokens), attempt.ledger⟩
    | some _ => attempt.andThen (repeatBuild step bound)

namespace Grammar

/-- How a grammar builds nodes from tokens, given how its rules do. -/
def build (call : Rule → List Lexeme → Ledger Rule → Attempt Rule) :
    Grammar Rule → List Lexeme → Ledger Rule → Attempt Rule
  | .token _, [], ledger => .failed ledger
  | .token wanted, lexeme :: rest, ledger =>
    match wanted.accepts lexeme with
    | none => .failed ledger
    | some kind => ledger.enter (lexeme.node kind) rest
  | .seq first second, tokens, ledger =>
    (first.build call tokens ledger).andThen (second.build call)
  | .choice first second, tokens, ledger =>
    (first.build call tokens ledger).orElse (second.build call tokens)
  | .ifFits first next other, tokens, ledger =>
    (first.build call tokens ledger).ifFits (next.build call) (other.build call tokens)
  | .optional part, tokens, ledger => (part.build call tokens ledger).orNothing tokens
  | .many part, tokens, ledger => repeatBuild (part.build call) tokens tokens ledger
  | .ahead part, tokens, ledger => (part.build call tokens ledger).ahead tokens
  | .notAhead part, tokens, ledger => (part.build call tokens ledger).notAhead tokens
  | .branch kind part, tokens, ledger => (part.build call tokens ledger).under kind
  | .rule name, tokens, ledger => call name tokens ledger

/-- What was kept of a rule at this place; else it is tried, and what it gives is kept. -/
def once [DecidableEq Rule] (name : Rule) (left : Nat) (attempt : Ledger Rule → Attempt Rule)
    (ledger : Ledger Rule) : Attempt Rule :=
  match ledger.find? name left with
  | some entry => ⟨entry.result, ledger⟩
  | none => (attempt ledger).keep name left

/-- Rules that may call each other at most `depth` deep. Some of them are tried only once at each
place. -/
def buildRule [DecidableEq Rule] (isKept : Rule → Bool) (body : Rule → Grammar Rule) :
    (depth : Nat) → Rule → List Lexeme → Ledger Rule → Attempt Rule
  | 0, _, _ => .failed
  | depth + 1, name, tokens =>
    let attempt := (body name).build (buildRule isKept body depth) tokens
    if isKept name then once name tokens.length attempt else attempt

end Grammar

end

/-! ## The rules of the language -/

namespace Rule

/-- Rules that are tried at one place on more than one way. -/
def isKept : Rule → Bool
  | modifiers | block => true
  | _ => false

/-- The bodies of the rules, with all alternatives of a statement as they are tried: a block
that ends the statement, and the same block as one of its parts. -/
def alternatives : Rule → Body
  | blockItem => call block <|> .branch .statement (call statementRest)
  | statementRest =>
    semicolon <|>
    call block >> .notAhead (call statementContinues) <|>
    (call block <|> call group <|> .token .plain) >> call statementRest
  | name => body name

end Rule

/-- The nodes of a file, numbered from `first` on. -/
def buildTokens (first : Nat) (tokens : List Lexeme) : Attempt Rule :=
  Grammar.buildRule Rule.isKept Rule.alternatives (callDepth tokens) .compilationUnit tokens
    ⟨first, []⟩

/-- Read a file into elements. `first` is the first number that is free. -/
def parseElements (first : Nat) (text : String) : Except ParseError Node :=
  match (buildTokens first (lexemes text)).result with
  | some ([root], _) => root.hoist.sealAgainst text
  | _ => .error (refusal text (readTokens (lexemes text)).furthest)

/-- The first number that is free afterwards, whether or not the file could be read. -/
def nextElement (first : Nat) (text : String) : Nat :=
  (buildTokens first (lexemes text)).ledger.next

end Verbatim.Java
