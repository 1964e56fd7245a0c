import Verbatim.Proofs.Java.Elements
import Verbatim.Proofs.Tree.Renumbering

/-! Reading from another number on. Which nodes are built does not depend on the numbers, and
numbers are given out one after the other; so all numbers of a file lie further on by as much as
the first one. -/

namespace Verbatim

/-- So much further on. -/
def NodeId.shift (distance : Nat) (id : NodeId) : NodeId := ⟨id.number + distance⟩

namespace Java

section

variable {Rule : Type} (distance : Nat)

def Kept.shift (entry : Kept Rule) : Kept Rule :=
  { entry with
    result := entry.result.map (Prod.map (List.map (Node.renumber (.shift distance))) id) }

def Ledger.shift (ledger : Ledger Rule) : Ledger Rule :=
  ⟨ledger.next + distance, ledger.kept.map (Kept.shift distance)⟩

def Attempt.shift (attempt : Attempt Rule) : Attempt Rule :=
  ⟨attempt.result.map (Prod.map (List.map (Node.renumber (.shift distance))) id),
    attempt.ledger.shift distance⟩

def Counts (build : Ledger Rule → Attempt Rule) : Prop :=
  ∀ ledger, build (ledger.shift distance) = (build ledger).shift distance

variable {distance}

theorem Ledger.enter_shift (ledger : Ledger Rule) {node moved : Node}
    (same : ∀ id, moved.withId id = (node.renumber (.shift distance)).withId id)
    (rest : List Lexeme) :
    (ledger.shift distance).enter moved rest = (ledger.enter node rest).shift distance := by
  have next : (ledger.shift distance).next = ledger.next + distance := rfl
  have numbered : moved.withId ⟨ledger.next + distance⟩ =
      (node.withId ⟨ledger.next⟩).renumber (.shift distance) := by
    rw [same, Node.withId, Node.withId, Node.renumber_eq, Node.renumber_eq]
    rfl
  rw [enter, enter, Attempt.shift, next, numbered]
  simp only [Ledger.shift, Option.map_some, Prod.map_apply, List.map_cons, List.map_nil, id_eq,
    Nat.add_right_comm]

namespace Attempt

variable {attempt : Attempt Rule} {next : List Lexeme → Ledger Rule → Attempt Rule}
  {other : Ledger Rule → Attempt Rule}

theorem andThen_shift (counts : ∀ rest, Counts distance (next rest)) :
    (attempt.shift distance).andThen next = (attempt.andThen next).shift distance := by
  rcases attempt with ⟨_ | ⟨nodes, rest⟩, ledger⟩
  · rfl
  · simp only [andThen, shift, Option.map_some, Prod.map_apply, id_eq, counts rest ledger]
    cases (next rest ledger).result <;> simp

theorem orElse_shift (counts : Counts distance other) :
    (attempt.shift distance).orElse other = (attempt.orElse other).shift distance := by
  rcases attempt with ⟨_ | ⟨nodes, rest⟩, ledger⟩
  · exact counts ledger
  · rfl

theorem ifFits_shift (counts : ∀ rest, Counts distance (next rest))
    (otherCounts : Counts distance other) :
    (attempt.shift distance).ifFits next other = (attempt.ifFits next other).shift distance := by
  have following := @andThen_shift _ distance attempt next counts
  rcases attempt with ⟨_ | ⟨nodes, rest⟩, ledger⟩
  · exact otherCounts ledger
  · exact following

theorem orNothing_shift (tokens : List Lexeme) :
    (attempt.shift distance).orNothing tokens = (attempt.orNothing tokens).shift distance := by
  rcases attempt with ⟨_ | ⟨nodes, rest⟩, ledger⟩ <;> rfl

theorem ahead_shift (tokens : List Lexeme) :
    (attempt.shift distance).ahead tokens = (attempt.ahead tokens).shift distance := by
  rcases attempt with ⟨_ | ⟨nodes, rest⟩, ledger⟩ <;> rfl

theorem notAhead_shift (tokens : List Lexeme) :
    (attempt.shift distance).notAhead tokens = (attempt.notAhead tokens).shift distance := by
  rcases attempt with ⟨_ | ⟨nodes, rest⟩, ledger⟩ <;> rfl

theorem under_shift (kind : Kind) :
    (attempt.shift distance).under kind = (attempt.under kind).shift distance := by
  rcases attempt with ⟨_ | ⟨nodes, rest⟩, ledger⟩
  · rfl
  · refine ledger.enter_shift (fun id => ?_) rest
    rw [Node.withId, Node.withId, Node.renumber_eq]
    rfl

end Attempt

theorem repeatBuild_counts {step : List Lexeme → Ledger Rule → Attempt Rule}
    (counts : ∀ tokens, Counts distance (step tokens)) (rounds tokens : List Lexeme) :
    Counts distance (repeatBuild step rounds tokens) := by
  induction rounds generalizing tokens with
  | nil => exact fun ledger => rfl
  | cons round rounds induction =>
      intro ledger
      rw [repeatBuild, repeatBuild, counts tokens ledger]
      have following := @Attempt.andThen_shift _ distance (step tokens ledger) _ induction
      generalize step tokens ledger = attempt at following ⊢
      rcases attempt with ⟨_ | ⟨nodes, rest⟩, after⟩
      · rfl
      · exact following

namespace Grammar

theorem build_counts {call : Rule → List Lexeme → Ledger Rule → Attempt Rule}
    (calls : ∀ name tokens, Counts distance (call name tokens)) (grammar : Grammar Rule)
    (tokens : List Lexeme) : Counts distance (grammar.build call tokens) := by
  induction grammar generalizing tokens with
  | token wanted =>
      intro ledger
      cases tokens with
      | nil => rfl
      | cons lexeme rest =>
          rw [build, build]
          cases wanted.accepts lexeme with
          | none => rfl
          | some kind =>
              have leaf (id : NodeId) : (lexeme.node kind).withId id =
                  ((lexeme.node kind).renumber (.shift distance)).withId id := rfl
              exact ledger.enter_shift leaf rest
  | seq first second firstCounts secondCounts =>
      intro ledger
      rw [build, build, firstCounts tokens ledger]
      exact Attempt.andThen_shift secondCounts
  | choice first second firstCounts secondCounts =>
      intro ledger
      rw [build, build, firstCounts tokens ledger]
      exact Attempt.orElse_shift (secondCounts tokens)
  | ifFits first next other firstCounts nextCounts otherCounts =>
      intro ledger
      rw [build, build, firstCounts tokens ledger]
      exact Attempt.ifFits_shift nextCounts (otherCounts tokens)
  | optional part counts =>
      intro ledger
      rw [build, build, counts tokens ledger]
      exact Attempt.orNothing_shift tokens
  | many part counts => exact repeatBuild_counts counts tokens tokens
  | ahead part counts =>
      intro ledger
      rw [build, build, counts tokens ledger]
      exact Attempt.ahead_shift tokens
  | notAhead part counts =>
      intro ledger
      rw [build, build, counts tokens ledger]
      exact Attempt.notAhead_shift tokens
  | branch kind part counts =>
      intro ledger
      rw [build, build, counts tokens ledger]
      exact Attempt.under_shift kind
  | rule name => exact calls name tokens

variable [DecidableEq Rule]

theorem once_counts (name : Rule) (left : Nat) {attempt : Ledger Rule → Attempt Rule}
    (counts : Counts distance attempt) : Counts distance (once name left attempt) := by
  intro ledger
  have found : (ledger.shift distance).find? name left =
      (ledger.find? name left).map (Kept.shift distance) := List.find?_map ..
  rw [once, once, found]
  cases ledger.find? name left with
  | some entry => rfl
  | none =>
      simp only [Option.map_none]
      rw [counts ledger]
      rfl

theorem buildRule_counts (isKept : Rule → Bool) (body : Rule → Grammar Rule) (depth : Nat)
    (name : Rule) (tokens : List Lexeme) :
    Counts distance (buildRule isKept body depth name tokens) := by
  induction depth generalizing name tokens with
  | zero => exact fun ledger => rfl
  | succ depth induction =>
      have counts := build_counts induction (body name) tokens
      rw [buildRule]
      split
      · exact once_counts name tokens.length counts
      · exact counts

end Grammar

end

/-! ## Files -/

theorem buildTokens_add (first distance : Nat) (tokens : List Lexeme) :
    buildTokens (first + distance) tokens = (buildTokens first tokens).shift distance :=
  Grammar.buildRule_counts Rule.isKept Rule.alternatives (callDepth tokens) .compilationUnit tokens
    ⟨first, []⟩

theorem parseElements_add (first distance : Nat) (text : String) :
    parseElements (first + distance) text =
      (parseElements first text).map (Node.renumber (.shift distance)) := by
  rw [parseElements, parseElements, buildTokens_add]
  rcases buildTokens first (lexemes text) with ⟨_ | ⟨_ | ⟨root, _ | ⟨_, _⟩⟩, rest⟩, ledger⟩
  · rfl
  · rfl
  · show (root.renumber (.shift distance)).hoist.sealAgainst text = _
    rw [Node.hoist_renumber, Node.sealAgainst_renumber]
  · rfl

theorem nextElement_add (first distance : Nat) (text : String) :
    nextElement (first + distance) text = nextElement first text + distance := by
  rw [nextElement, nextElement, buildTokens_add]
  rfl

theorem lt_nextElement {first : Nat} {text : String} {tree : Node}
    (parsed : parseElements first text = .ok tree) :
    ∀ number ∈ tree.numbers, number < nextElement first text := by
  rcases buildTokens_given first (lexemes text) with ⟨place, given⟩
  rw [parseElements] at parsed
  split at parsed
  · next root rest found =>
      intro number member
      have placed := (given.row [root] rest found).placed
      rw [List.flatMap_singleton, ← Node.numbers_of_sealAgainst parsed] at placed
      exact (placed number member).1
  · cases parsed

end Java

end Verbatim
