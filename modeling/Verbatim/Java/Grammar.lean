import Verbatim.Java.Lexeme

/-! Grammars as data, and how a grammar reads tokens. Alternatives are tried in order and the first
that fits is taken; repetitions take as much as they can. Every grammar yields the nodes of the
tokens it took, in their order. -/

namespace Verbatim.Java

inductive Wanted where
  | keyword (word : String)
  /-- A word that is not reserved. -/
  | identifier
  | modifier
  | primitive
  | punctuation (text : String)
  /-- Any token but a bracket. -/
  | plain
  | endOfText
  deriving DecidableEq, Repr

namespace Wanted

/-- The kind of node a token becomes, if it is what is wanted. -/
def accepts (wanted : Wanted) (lexeme : Lexeme) : Option Kind :=
  match wanted, lexeme.tokenClass with
  | keyword word, .word => if lexeme.text = word then some .keyword else none
  | identifier, .word => if isReserved lexeme.text then none else some .identifier
  | modifier, .word => if modifiers.contains lexeme.text then some .modifier else none
  | primitive, .word => if primitiveTypes.contains lexeme.text then some .keyword else none
  | punctuation text, .punctuation => if lexeme.text = text then some .punctuation else none
  | plain, .literal => some .literal
  | plain, .word => some (wordKind lexeme.text)
  | plain, .punctuation => if isBracket lexeme.text then none else some .punctuation
  | endOfText, .endOfText => some .endOfFile
  | _, _ => none

/-- How a message names a token that is wanted but has another spelling. -/
def label : Wanted → String
  | keyword word => word
  | identifier => "identifier"
  | modifier => "modifier"
  | primitive => "primitive type"
  | punctuation text => text
  | plain => "token"
  | endOfText => Label.anyCharacter

/-- What an attempt wants of the token itself. A token of the right class is read to its end before
its spelling is looked at. -/
def tokenMarks (wanted : Wanted) (lexeme : Lexeme) : Furthest :=
  let spelling := if (wanted.accepts lexeme).isNone then [wanted.label] else []
  let atEnd (labels : List String) : Furthest :=
    if labels.isEmpty then .none else ⟨lexeme.stop, labels⟩
  match wanted with
  | keyword _ | identifier | modifier | primitive =>
    if lexeme.tokenClass = .word then atEnd (Label.wordPart :: spelling)
    else ⟨lexeme.start, [Label.wordStart]⟩
  | punctuation _ =>
    if lexeme.tokenClass = .punctuation then atEnd spelling
    else ⟨lexeme.start, Label.anyPunctuation⟩
  | plain =>
    match lexeme.tokenClass with
    | .literal => lexeme.literalMarks
    | .word => lexeme.literalMarks.join (atEnd [Label.wordPart])
    | .punctuation => lexeme.literalMarks.join (atEnd spelling)
    | .endOfText | .stray =>
      lexeme.literalMarks.join ⟨lexeme.start, Label.wordStart :: Label.anyPunctuation⟩
  | endOfText => .none

def marks (wanted : Wanted) (lexeme : Lexeme) : Furthest :=
  lexeme.triviaMarks.join (wanted.tokenMarks lexeme)

end Wanted

/-- A token in the tree owns the trivia in front of it. -/
def Lexeme.node (lexeme : Lexeme) (kind : Kind) : Node :=
  (Node.token kind lexeme.text).withLeading lexeme.leading

/-- Grammars over rules named by `Rule`. -/
inductive Grammar (Rule : Type) where
  | token (wanted : Wanted)
  | seq (first second : Grammar Rule)
  | choice (first second : Grammar Rule)
  /-- If `first` fits, `next` must follow it; only if `first` does not fit, `other` is tried. -/
  | ifFits (first next other : Grammar Rule)
  | optional (part : Grammar Rule)
  | many (part : Grammar Rule)
  /-- The part fits here, but nothing is taken. -/
  | ahead (part : Grammar Rule)
  /-- The part does not fit here. -/
  | notAhead (part : Grammar Rule)
  /-- The nodes of the part become the children of one node. -/
  | branch (kind : Kind) (part : Grammar Rule)
  | rule (name : Rule)
  deriving Repr

namespace Grammar

variable {Rule : Type}

instance : AndThen (Grammar Rule) := ⟨fun first second => .seq first (second ())⟩

instance : OrElse (Grammar Rule) := ⟨fun first second => .choice first (second ())⟩

def keyword (word : String) : Grammar Rule := .token (.keyword word)

def punctuation (text : String) : Grammar Rule := .token (.punctuation text)

def identifier : Grammar Rule := .token .identifier

def atLeastOnce (part : Grammar Rule) : Grammar Rule := part >> .many part

def separated (separator : String) (part : Grammar Rule) : Grammar Rule :=
  part >> .many (punctuation separator >> part)

def enclosed (opening closing : String) (part : Grammar Rule) : Grammar Rule :=
  punctuation opening >> part >> punctuation closing

end Grammar

/-! ## Reading -/

/-- The nodes that were read and the tokens that are left, if the grammar fits; and what was
wanted on the way in either case. -/
structure Outcome where
  result : Option (List Node × List Lexeme)
  furthest : Furthest

namespace Outcome

def failed : Outcome := ⟨none, .none⟩

def nothing (tokens : List Lexeme) : Outcome := ⟨some ([], tokens), .none⟩

/-- Go on with the tokens that are left. -/
def andThen (first : Outcome) (next : List Lexeme → Outcome) : Outcome :=
  match first.result with
  | none => first
  | some (nodes, rest) =>
    let second := next rest
    ⟨second.result.map fun (more, rest) => (nodes ++ more, rest),
      first.furthest.join second.furthest⟩

def orElse (first : Outcome) (other : Unit → Outcome) : Outcome :=
  match first.result with
  | some _ => first
  | none =>
    let second := other ()
    ⟨second.result, first.furthest.join second.furthest⟩

end Outcome

/-- Read again and again until the step does not fit. Each round takes a token, so `bound` rounds
are enough when it is as long as what is left. -/
def repeatStep (step : List Lexeme → Outcome) : (bound tokens : List Lexeme) → Outcome
  | [], tokens => .nothing tokens
  | _ :: bound, tokens =>
    let outcome := step tokens
    match outcome.result with
    | none => ⟨some ([], tokens), outcome.furthest⟩
    | some _ => outcome.andThen (repeatStep step bound)

namespace Grammar

variable {Rule : Type}

/-- A node that is built from parts that were read has no formatting of its own yet. -/
def grow (kind : Kind) (children : List Node) : Node :=
  (Node.branch kind children).withLeading .empty

/-- How a grammar reads tokens, given how its rules do. -/
def run (call : Rule → List Lexeme → Outcome) : Grammar Rule → List Lexeme → Outcome
  | .token _, [] => .failed
  | .token wanted, lexeme :: rest =>
    ⟨(wanted.accepts lexeme).map fun kind => ([lexeme.node kind], rest), wanted.marks lexeme⟩
  | .seq first second, tokens => (first.run call tokens).andThen (second.run call)
  | .choice first second, tokens =>
    (first.run call tokens).orElse fun _ => second.run call tokens
  | .ifFits first next other, tokens =>
    let outcome := first.run call tokens
    match outcome.result with
    | some _ => outcome.andThen (next.run call)
    | none => outcome.orElse fun _ => other.run call tokens
  | .optional part, tokens =>
    let outcome := part.run call tokens
    ⟨outcome.result <|> some ([], tokens), outcome.furthest⟩
  | .many part, tokens => repeatStep (part.run call) tokens tokens
  | .ahead part, tokens =>
    if (part.run call tokens).result.isSome then .nothing tokens else .failed
  | .notAhead part, tokens =>
    if (part.run call tokens).result.isSome then .failed else .nothing tokens
  | .branch kind part, tokens =>
    let outcome := part.run call tokens
    ⟨outcome.result.map fun (nodes, rest) => ([grow kind nodes], rest), outcome.furthest⟩
  | .rule name, tokens => call name tokens

/-- Rules that may call each other at most `depth` deep. -/
def runRule (body : Rule → Grammar Rule) : (depth : Nat) → Rule → List Lexeme → Outcome
  | 0, _, _ => .failed
  | depth + 1, name, tokens => (body name).run (runRule body depth) tokens

end Grammar

end Verbatim.Java
