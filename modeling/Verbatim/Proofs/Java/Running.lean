import Verbatim.Java.Parser
import Verbatim.Proofs.Java.Yielding

/-! How deep rules call each other. A call is made behind a token that was taken, or on a lower
level; so the depth that is granted for a text is always enough, and what a grammar reads when its
calls are counted is what it reads when nothing is. -/

namespace Verbatim.Java

section

variable {Rule : Type}

/-! ## Levels of rules -/

namespace Grammar

/-- The grammar may fit without taking a token; of rules it is said which ones may. -/
def mayTakeNothing (empty : Rule → Bool) : Grammar Rule → Bool
  | .token _ => false
  | .seq first second => first.mayTakeNothing empty && second.mayTakeNothing empty
  | .choice first second => first.mayTakeNothing empty || second.mayTakeNothing empty
  | .ifFits first next other =>
    first.mayTakeNothing empty && next.mayTakeNothing empty || other.mayTakeNothing empty
  | .optional _ | .many _ | .ahead _ | .notAhead _ => true
  | .branch _ part => part.mayTakeNothing empty
  | .rule name => empty name

/-- Every rule that is called before a token is taken lies below the limit, and nothing is repeated
without taking a token. Behind a token any of the `levels` may be called. -/
def startsBelow (empty : Rule → Bool) (level : Rule → Nat) (levels : Nat) :
    Nat → Grammar Rule → Bool
  | _, .token _ => true
  | limit, .seq first second =>
    first.startsBelow empty level levels limit &&
      second.startsBelow empty level levels
        (if first.mayTakeNothing empty then limit else levels)
  | limit, .choice first second =>
    first.startsBelow empty level levels limit && second.startsBelow empty level levels limit
  | limit, .ifFits first next other =>
    first.startsBelow empty level levels limit &&
      next.startsBelow empty level levels
        (if first.mayTakeNothing empty then limit else levels) &&
      other.startsBelow empty level levels limit
  | limit, .many part =>
    part.startsBelow empty level levels limit && !part.mayTakeNothing empty
  | limit, .optional part | limit, .ahead part | limit, .notAhead part | limit, .branch _ part =>
    part.startsBelow empty level levels limit
  | limit, .rule name => level name < limit

end Grammar

def EmptyRules (body : Rule → Grammar Rule) (empty : Rule → Bool) : Prop :=
  ∀ name, (body name).mayTakeNothing empty = true → empty name = true

theorem Yields.mayTakeNothing {body : Rule → Grammar Rule} {empty : Rule → Bool}
    (sound : EmptyRules body empty) {grammar : Grammar Rule} {taken : List Lexeme}
    {nodes : List Node} (yields : Yields body grammar taken nodes) (nothing : taken = []) :
    grammar.mayTakeNothing empty = true := by
  induction yields with
  | token => cases nothing
  | seq _ _ first second =>
      rcases List.append_eq_nil_iff.1 nothing with ⟨firstNothing, secondNothing⟩
      rw [Grammar.mayTakeNothing, first firstNothing, second secondNothing]
      rfl
  | choiceFirst _ first =>
      rw [Grammar.mayTakeNothing, first nothing, Bool.true_or]
  | choiceSecond _ second =>
      rw [Grammar.mayTakeNothing, second nothing, Bool.or_true]
  | fits _ _ first next =>
      rcases List.append_eq_nil_iff.1 nothing with ⟨firstNothing, nextNothing⟩
      rw [Grammar.mayTakeNothing, first firstNothing, next nextNothing]
      rfl
  | fitsNot _ other =>
      rw [Grammar.mayTakeNothing, other nothing, Bool.or_true]
  | optional => rfl
  | optionalNone => rfl
  | manyEnd => rfl
  | manyMore => rfl
  | ahead => rfl
  | notAhead => rfl
  | branch _ part => exact part nothing
  | @rule name _ _ _ part => exact sound name (part nothing)

/-- Of these tokens each leaves less than there was, and the rules take no others. -/
structure Shrinks {α : Type} (take : Take α) (body : Rule → Grammar Rule) (size : α → Nat)
    (tokens : Wanted → Bool) (rules : Rule → Bool) (empty : Rule → Bool) : Prop where
  take : ∀ {wanted : Wanted} {input rest : α} {node : Node}, tokens wanted = true →
    take wanted input = some (node, rest) → size rest < size input
  only : ∀ name, rules name = true → (body name).Only tokens rules = true
  empty : EmptyRules body empty

/-- What is read leaves no more than there was, and less where something must be taken. -/
theorem Reads.size_le {α : Type} {take : Take α} {body : Rule → Grammar Rule} {size : α → Nat}
    {tokens : Wanted → Bool} {rules empty : Rule → Bool}
    (shrinks : Shrinks take body size tokens rules empty) {grammar : Grammar Rule} {input rest : α}
    {nodes : List Node} {reading : Reading α} (reads : Reads take body grammar input reading)
    (only : grammar.Only tokens rules = true) (fit : reading = some (nodes, rest)) :
    size rest ≤ size input ∧ (grammar.mayTakeNothing empty = false → size rest < size input) := by
  -- of two parts one behind the other it is enough that one of them takes something
  have both : ∀ {size between left : Nat} {front back : Bool},
      (between ≤ size ∧ (front = false → between < size)) →
      (left ≤ between ∧ (back = false → left < between)) →
      left ≤ size ∧ ((front && back) = false → left < size) := by
    rintro size between left front back ⟨le, lt⟩ ⟨le', lt'⟩
    refine ⟨Nat.le_trans le' le, fun takes => ?_⟩
    rcases Bool.and_eq_false_iff.1 takes with takes | takes
    · exact Nat.lt_of_le_of_lt le' (lt takes)
    · exact Nat.lt_of_lt_of_le (lt' takes) le
  induction reads generalizing nodes rest with
  | token =>
      rcases Option.map_eq_some_iff.1 fit with ⟨⟨node, left⟩, taken, pair⟩
      cases pair
      have less := shrinks.take only taken
      exact ⟨Nat.le_of_lt less, fun _ => less⟩
  | seq _ _ first second =>
      rw [Grammar.Only, Bool.and_eq_true] at only
      rcases Reading.after_eq_some_iff.1 fit with ⟨_, secondFit, -⟩
      exact both (first only.1 rfl) (second only.2 secondFit)
  | choiceFirst _ first =>
      rw [Grammar.Only, Bool.and_eq_true] at only
      refine (first only.1 fit).imp_right fun less takes => less ?_
      rw [Grammar.mayTakeNothing, Bool.or_eq_false_iff] at takes
      exact takes.1
  | choiceSecond _ _ _ second =>
      rw [Grammar.Only, Bool.and_eq_true] at only
      refine (second only.2 fit).imp_right fun less takes => less ?_
      rw [Grammar.mayTakeNothing, Bool.or_eq_false_iff] at takes
      exact takes.2
  | fits _ _ first next =>
      rw [Grammar.Only, Bool.and_eq_true, Bool.and_eq_true] at only
      rcases Reading.after_eq_some_iff.1 fit with ⟨_, nextFit, -⟩
      refine (both (first only.1.1 rfl) (next only.1.2 nextFit)).imp_right fun less takes => less ?_
      rw [Grammar.mayTakeNothing, Bool.or_eq_false_iff] at takes
      exact takes.1
  | fitsNot _ _ _ other =>
      rw [Grammar.Only, Bool.and_eq_true] at only
      refine (other only.2 fit).imp_right fun less takes => less ?_
      rw [Grammar.mayTakeNothing, Bool.or_eq_false_iff] at takes
      exact takes.2
  | @optional _ _ reading _ part =>
      refine ⟨?_, (Bool.noConfusion ·)⟩
      cases reading with
      | none => cases fit; exact Nat.le_refl _
      | some pair => exact (part only fit).1
  | manyEnd => cases fit; exact ⟨Nat.le_refl _, (Bool.noConfusion ·)⟩
  | manyMore _ _ part more =>
      rcases Reading.after_eq_some_iff.1 fit with ⟨_, moreFit, -⟩
      exact ⟨Nat.le_trans (more only moreFit).1 (part only rfl).1, (Bool.noConfusion ·)⟩
  | ahead => split at fit <;> cases fit; exact ⟨Nat.le_refl _, (Bool.noConfusion ·)⟩
  | notAhead => split at fit <;> cases fit; exact ⟨Nat.le_refl _, (Bool.noConfusion ·)⟩
  | branch _ part =>
      rcases Option.map_eq_some_iff.1 fit with ⟨⟨inner, left⟩, rfl, pair⟩
      cases pair
      exact part only rfl
  | @rule name _ _ _ part =>
      refine (part (shrinks.only name only) fit).imp_right fun less takes => less ?_
      exact Bool.eq_false_iff.2 fun may => Bool.eq_false_iff.1 takes (shrinks.empty name may)
  | seqNone => cases fit

theorem shrinks_takeLexeme {body : Rule → Grammar Rule} {empty : Rule → Bool}
    (sound : EmptyRules body empty) :
    Shrinks takeLexeme body List.length (fun _ => true) (fun _ => true) empty where
  take := by
    intro wanted input rest node _ taken
    cases input with
    | nil => cases taken
    | cons lexeme left =>
        rcases Option.map_eq_some_iff.1 taken with ⟨kind, -, pair⟩
        cases pair
        exact Nat.lt_succ_self _
  only := fun name _ => (body name).only_anything
  empty := sound

theorem Reads.rest_length {body : Rule → Grammar Rule} {empty : Rule → Bool}
    (sound : EmptyRules body empty) {grammar : Grammar Rule} {tokens rest : List Lexeme}
    {nodes : List Node} (reads : Reads takeLexeme body grammar tokens (some (nodes, rest))) :
    rest.length ≤ tokens.length ∧
      (grammar.mayTakeNothing empty = false → rest.length < tokens.length) :=
  reads.size_le (shrinks_takeLexeme sound) grammar.only_anything rfl

/-! ## Counted calls -/

namespace Outcome

theorem result_andThen_of_none {first : Outcome} {next : List Lexeme → Outcome}
    (missing : first.result = none) : (first.andThen next).result = none := by
  rw [andThen, missing]
  exact missing

theorem result_andThen_of_some {first : Outcome} {next : List Lexeme → Outcome}
    {nodes : List Node} {rest : List Lexeme} (found : first.result = some (nodes, rest)) :
    (first.andThen next).result = Reading.after nodes (next rest).result := by
  rw [andThen, found]
  rfl

theorem result_orElse_of_none {first : Outcome} {other : Unit → Outcome}
    (missing : first.result = none) : (first.orElse other).result = (other ()).result := by
  rw [orElse, missing]

theorem result_orElse_of_some {first : Outcome} {other : Unit → Outcome}
    {nodes : List Node} {rest : List Lexeme} (found : first.result = some (nodes, rest)) :
    (first.orElse other).result = some (nodes, rest) := by
  rw [orElse, found]
  exact found

end Outcome

variable {body : Rule → Grammar Rule} {empty : Rule → Bool}

theorem repeatStep_reads (sound : EmptyRules body empty) {part : Grammar Rule}
    (takes : part.mayTakeNothing empty = false) {step : List Lexeme → Outcome} {size : Nat}
    (steps : ∀ tokens : List Lexeme, tokens.length ≤ size →
      Reads takeLexeme body part tokens (step tokens).result)
    {rounds tokens : List Lexeme} (enough : tokens.length ≤ rounds.length)
    (small : tokens.length ≤ size) :
    Reads takeLexeme body (.many part) tokens (repeatStep step rounds tokens).result := by
  induction rounds generalizing tokens with
  | nil =>
      have stepReads := steps tokens small
      cases found : (step tokens).result with
      | none =>
          rw [found] at stepReads
          exact .manyEnd stepReads
      | some pair =>
          rw [found] at stepReads
          have shorter := (stepReads.rest_length sound).2 takes
          rw [List.length_nil] at enough
          omega
  | cons _ rounds induction =>
      have stepReads := steps tokens small
      rw [repeatStep]
      cases found : (step tokens).result with
      | none =>
          rw [found] at stepReads
          exact .manyEnd stepReads
      | some pair =>
          rcases pair with ⟨nodes, rest⟩
          rw [found] at stepReads
          have shorter := (stepReads.rest_length sound).2 takes
          rw [List.length_cons] at enough
          simp only
          rw [Outcome.result_andThen_of_some found]
          exact .manyMore stepReads (induction (by omega) (by omega))

variable {level : Rule → Nat} {levels : Nat}

theorem limit_behind {size left limit levels bound : Nat} {mayTakeNothing : Bool}
    (shorter : left ≤ size ∧ (mayTakeNothing = false → left < size))
    (enough : size * levels + limit ≤ bound) :
    left * levels + (if mayTakeNothing then limit else levels) ≤ bound := by
  split
  · have product := Nat.mul_le_mul_right levels shorter.1
    omega
  · next takes =>
      have product := Nat.mul_le_mul_right levels (shorter.2 (by simpa using takes))
      rw [Nat.succ_mul] at product
      omega

theorem Reads.limit_behind (sound : EmptyRules body empty) {part : Grammar Rule}
    {tokens rest : List Lexeme} {nodes : List Node} {limit bound : Nat}
    (reads : Reads takeLexeme body part tokens (some (nodes, rest)))
    (enough : tokens.length * levels + limit ≤ bound) :
    rest.length * levels + (if part.mayTakeNothing empty then limit else levels) ≤ bound :=
  Java.limit_behind (reads.rest_length sound) enough

/-- A grammar runs as it should if the calls do that it makes: calls with fewer tokens, and calls
of lower rules. -/
theorem run_reads (sound : EmptyRules body empty) {call : Rule → List Lexeme → Outcome}
    {bound : Nat}
    (calls : ∀ (name : Rule) (tokens : List Lexeme), tokens.length * levels + level name < bound →
      Reads takeLexeme body (.rule name) tokens (call name tokens).result)
    {grammar : Grammar Rule} {limit : Nat} {tokens : List Lexeme}
    (starts : grammar.startsBelow empty level levels limit = true)
    (enough : tokens.length * levels + limit ≤ bound) :
    Reads takeLexeme body grammar tokens (grammar.run call tokens).result := by
  -- on the grammar: behind a part that took tokens every rule may be called again
  induction grammar generalizing limit tokens with
  | token wanted =>
      have reads : Reads takeLexeme body (.token wanted) tokens _ := .token
      cases tokens with
      | nil => exact reads
      | cons lexeme rest =>
          rw [takeLexeme, Option.map_map] at reads
          exact reads
  | seq first second firstInduction secondInduction =>
      rw [Grammar.startsBelow, Bool.and_eq_true] at starts
      have firstReads := firstInduction starts.1 enough
      rw [Grammar.run]
      cases found : (first.run call tokens).result with
      | none =>
          rw [found] at firstReads
          rw [Outcome.result_andThen_of_none found]
          exact .seqNone firstReads
      | some pair =>
          rcases pair with ⟨nodes, rest⟩
          rw [found] at firstReads
          rw [Outcome.result_andThen_of_some found]
          exact .seq firstReads (secondInduction starts.2 (firstReads.limit_behind sound enough))
  | choice first second firstInduction secondInduction =>
      rw [Grammar.startsBelow, Bool.and_eq_true] at starts
      have firstReads := firstInduction starts.1 enough
      rw [Grammar.run]
      cases found : (first.run call tokens).result with
      | none =>
          rw [found] at firstReads
          rw [Outcome.result_orElse_of_none found]
          exact .choiceSecond firstReads (secondInduction starts.2 enough)
      | some pair =>
          rcases pair with ⟨nodes, rest⟩
          rw [found] at firstReads
          rw [Outcome.result_orElse_of_some found]
          exact .choiceFirst firstReads
  | ifFits first next other firstInduction nextInduction otherInduction =>
      rw [Grammar.startsBelow, Bool.and_eq_true, Bool.and_eq_true] at starts
      have firstReads := firstInduction starts.1.1 enough
      rw [Grammar.run]
      cases found : (first.run call tokens).result with
      | none =>
          rw [found] at firstReads
          simp only
          rw [Outcome.result_orElse_of_none found]
          exact .fitsNot firstReads (otherInduction starts.2 enough)
      | some pair =>
          rcases pair with ⟨nodes, rest⟩
          rw [found] at firstReads
          simp only
          rw [Outcome.result_andThen_of_some found]
          exact .fits firstReads
            (nextInduction starts.1.2 (firstReads.limit_behind sound enough))
  | optional part induction => exact .optional (induction starts enough)
  | many part induction =>
      rw [Grammar.startsBelow, Bool.and_eq_true, Bool.not_eq_true'] at starts
      refine repeatStep_reads sound starts.2 ?_ (Nat.le_refl _) (Nat.le_refl _)
      intro left notLonger
      have product := Nat.mul_le_mul_right levels notLonger
      exact induction starts.1 (by omega)
  | ahead part induction =>
      have reads := Reads.ahead (induction starts enough)
      rw [Grammar.run]
      split at reads
      · next fits =>
          rw [if_pos fits]
          exact reads
      · next fits =>
          rw [if_neg fits]
          exact reads
  | notAhead part induction =>
      have reads := Reads.notAhead (induction starts enough)
      rw [Grammar.run]
      split at reads
      · next fits =>
          rw [if_pos fits]
          exact reads
      · next fits =>
          rw [if_neg fits]
          exact reads
  | branch kind part induction => exact .branch (induction starts enough)
  | rule name =>
      rw [Grammar.startsBelow, decide_eq_true_eq] at starts
      exact calls name tokens (by omega)

theorem runRule_reads (sound : EmptyRules body empty)
    (starts : ∀ name, (body name).startsBelow empty level levels (level name) = true)
    {depth : Nat} {name : Rule} {tokens : List Lexeme}
    (enough : tokens.length * levels + level name < depth) :
    Reads takeLexeme body (.rule name) tokens (Grammar.runRule body depth name tokens).result := by
  induction depth generalizing name tokens with
  | zero => exact absurd enough (Nat.not_lt_zero _)
  | succ depth induction =>
      exact .rule (run_reads sound (fun _ _ enough => induction enough) (starts name)
        (Nat.le_of_lt_succ enough))

end

/-! ## The rules of the language -/

namespace Rule

/-- Only modifiers and dimensions may be missing. -/
def mayBeEmpty : Rule → Bool
  | modifiers | dimensions => true
  | _ => false

/-- How many calls may follow each other without a token in between. -/
def level : Rule → Nat
  | package | enumValue | methodBody | initializer | modifiers | typeBase | group => 1
  | classDecl | enumValues | typeRef | statementStart | statementRest | expressionItem
  | groupItem => 2
  | topLevel | methodDecl | fieldDecl | parameter | typeArgument | blockItem | expression => 3
  | compilationUnit | member | parameterList => 4
  | _ => 0

def levels : Nat := 5

theorem mayBeEmpty_sound : EmptyRules body mayBeEmpty := by
  intro name
  cases name <;> decide

theorem startsBelow_level (name : Rule) :
    (body name).startsBelow mayBeEmpty level levels (level name) = true := by
  cases name <;> decide

end Rule

theorem lt_callDepth (tokens : List Lexeme) :
    tokens.length * Rule.levels + Rule.level .compilationUnit < callDepth tokens := by
  rw [callDepth, show Rule.every.length = 44 from rfl, show Rule.levels = 5 from rfl,
    show Rule.level .compilationUnit = 4 from rfl]
  omega

theorem readTokens_reads (tokens : List Lexeme) :
    Reads takeLexeme Rule.body (.rule .compilationUnit) tokens (readTokens tokens).result :=
  runRule_reads Rule.mayBeEmpty_sound Rule.startsBelow_level (lt_callDepth tokens)

end Verbatim.Java
