import Verbatim.Proofs.Java.Blindness

/-! How far a grammar looks. Where brackets are taken in pairs only, nothing that is read
between two brackets depends on what stands behind the second one; and a part that can do
nothing with a certain token depends on nothing that stands behind that token. -/

namespace Verbatim.Java

/-! ## Open brackets

Open brackets are kept as the texts that are to close them, the innermost first. -/

/-- Brackets that belong together, the opening one first. -/
abbrev Pairs := List (String × String)

/-- The open brackets behind a punctuation mark, unless it closes a bracket that is not open. -/
def Pairs.step (pairs : Pairs) (text : String) (stack : List String) : Option (List String) :=
  match pairs.lookup text with
  | some closing => some (closing :: stack)
  | none =>
    if pairs.any fun pair => pair.2 = text then
      match stack with
      | [] => none
      | top :: rest => if top = text then some rest else none
    else some stack

def Lexeme.step (pairs : Pairs) (lexeme : Lexeme) (stack : List String) : Option (List String) :=
  if lexeme.tokenClass = .punctuation then pairs.step lexeme.text stack else some stack

def nest (pairs : Pairs) : List Lexeme → List String → Option (List String)
  | [], stack => some stack
  | token :: rest, stack => (token.step pairs stack).bind (nest pairs rest)

/-- The open brackets behind a token that is wanted. Of a token that may be any but a bracket it can
be said only if the pairs are brackets. -/
def Wanted.step (pairs : Pairs) (wanted : Wanted) (stack : List String) : Option (List String) :=
  match wanted with
  | .punctuation text => pairs.step text stack
  | .plain =>
      if pairs.all fun pair => isBracket pair.1 && isBracket pair.2 then some stack else none
  | _ => some stack

theorem nest_append {pairs : Pairs} {tokens others : List Lexeme} {stack : List String} :
    nest pairs (tokens ++ others) stack = (nest pairs tokens stack).bind (nest pairs others) := by
  induction tokens generalizing stack with
  | nil => rfl
  | cons token rest induction =>
      rw [List.cons_append, nest, nest]
      cases token.step pairs stack with
      | none => rfl
      | some next => exact induction

theorem Pairs.step_of_not_isBracket {pairs : Pairs}
    (brackets : (pairs.all fun pair => isBracket pair.1 && isBracket pair.2) = true) {text : String}
    (other : isBracket text = false) (stack : List String) :
    pairs.step text stack = some stack := by
  have different : ∀ pair ∈ pairs, pair.1 ≠ text ∧ pair.2 ≠ text := by
    intro pair member
    have both := List.all_eq_true.1 brackets pair member
    rw [Bool.and_eq_true] at both
    constructor <;> rintro rfl <;> rw [other] at both
    · cases both.1
    · cases both.2
  have opens : pairs.lookup text = none := by
    rw [List.lookup_eq_none_iff]
    exact fun pair member => by simpa using (different pair member).1.symm
  have closes : (pairs.any fun pair => pair.2 = text) = false := by
    rw [List.any_eq_false]
    exact fun pair member => by simpa using (different pair member).2
  unfold Pairs.step
  rw [opens]
  simp only
  rw [closes, if_neg Bool.false_ne_true]

theorem step_of_accepts {pairs : Pairs} {wanted : Wanted} {lexeme : Lexeme} {kind : Kind}
    {stack next : List String} (accepted : wanted.accepts lexeme = some kind)
    (steps : wanted.step pairs stack = some next) : lexeme.step pairs stack = some next := by
  rw [Lexeme.step]
  split
  next isPunctuation =>
    cases wanted with
    | punctuation text =>
        simp only [Wanted.accepts, isPunctuation, Option.ite_none_right_eq_some] at accepted
        rw [accepted.1]
        exact steps
    | plain =>
        simp only [Wanted.accepts, isPunctuation, Option.ite_none_left_eq_some] at accepted
        simp only [Wanted.step, Option.ite_none_right_eq_some] at steps
        rw [Pairs.step_of_not_isBracket steps.1 (Bool.not_eq_true _ ▸ accepted.1), ← steps.2]
    | _ => simp [Wanted.accepts, isPunctuation] at accepted
  next otherClass =>
    cases wanted with
    | punctuation text =>
        cases tokenClass : lexeme.tokenClass <;> simp_all [Wanted.accepts]
    | plain =>
        simp only [Wanted.step, Option.ite_none_right_eq_some] at steps
        exact steps.2
    | _ => exact steps

theorem Pairs.step_append {pairs : Pairs} {text : String} {stack next : List String}
    (steps : pairs.step text stack = some next) (base : List String) :
    pairs.step text (stack ++ base) = some (next ++ base) := by
  unfold Pairs.step at steps ⊢
  cases opens : pairs.lookup text with
  | some closing =>
      rw [opens] at steps
      cases steps
      rfl
  | none =>
      rw [opens] at steps
      simp only at steps ⊢
      split
      next closes =>
        rw [if_pos closes] at steps
        cases stack with
        | nil => cases steps
        | cons top rest =>
            simp only [Option.ite_none_right_eq_some] at steps
            rcases steps with ⟨rfl, ⟨⟩⟩
            simp
      next stays =>
        rw [if_neg stays] at steps
        cases steps
        rfl

theorem Wanted.step_append {pairs : Pairs} {wanted : Wanted} {stack next : List String}
    (steps : wanted.step pairs stack = some next) (base : List String) :
    wanted.step pairs (stack ++ base) = some (next ++ base) := by
  cases wanted with
  | punctuation text => exact Pairs.step_append steps base
  | plain =>
      simp only [Wanted.step, Option.ite_none_right_eq_some, Option.some.injEq] at steps ⊢
      exact ⟨steps.1, congrArg (· ++ base) steps.2⟩
  | _ =>
      cases steps
      rfl

/-! ## Grammars that stop

A mark is a place between tokens. A grammar stops at it if nothing is taken there while no
bracket is open. -/

namespace Grammar

variable {Rule : Type}

/-- The outcome of two ways to go on. It must be the same, and only what both are sure of is
sure. -/
def merge : Option (List String × Bool) → Option (List String × Bool) →
    Option (List String × Bool)
  | some (first, sure), some (second, other) =>
    if first = second then some (first, sure && other) else none
  | _, _ => none

/-- The tokens that are asked for, if the grammar does nothing but ask for one of them. -/
def alternatives : Grammar Rule → Option (List Wanted)
  | .token wanted => some [wanted]
  | .choice first second => do return (← first.alternatives) ++ (← second.alternatives)
  | _ => none

/-- The open brackets behind what the grammar reads, and whether the mark is surely not there
yet. It fails where the brackets do not belong together, and where a token could be taken at the
mark. Of every token it is said whether it `shows` at the mark. Rules that are called while no
bracket is open are among the `outer` ones, all others among the `inner` ones; of rules that
only ask for one of some tokens it is said which these are. -/
def stops (peeked : Rule → List Wanted) (pairs : Pairs) (shows : Wanted → Bool)
    (outer inner : Rule → Bool) :
    Grammar Rule → List String → Bool → Option (List String × Bool)
  | .token wanted, stack, sure =>
    if stack.isEmpty && !sure && shows wanted then none
    else (wanted.step pairs stack).map (·, false)
  | .seq first second, stack, sure =>
    (first.stops peeked pairs shows outer inner stack sure).bind fun (next, sure) =>
      second.stops peeked pairs shows outer inner next sure
  | .choice first second, stack, sure =>
    merge (first.stops peeked pairs shows outer inner stack sure)
      (second.stops peeked pairs shows outer inner stack sure)
  | .ifFits first next other, stack, sure =>
    merge ((first.stops peeked pairs shows outer inner stack sure).bind fun (after, sure) =>
        next.stops peeked pairs shows outer inner after sure)
      (other.stops peeked pairs shows outer inner stack sure)
  | .optional part, stack, sure =>
    merge (part.stops peeked pairs shows outer inner stack sure) (some (stack, sure))
  | .many part, stack, _ =>
    merge (part.stops peeked pairs shows outer inner stack false) (some (stack, false))
  | .ahead part, stack, sure =>
    (part.stops peeked pairs shows outer inner stack sure).map fun _ => (stack, sure)
  -- a token that shows at the mark and is not here: so this is not the mark
  | .notAhead (.token wanted), stack, sure =>
    if stack.isEmpty && shows wanted then some (stack, true)
    else (wanted.step pairs stack).map fun _ => (stack, sure)
  -- only one token is looked at, whether or not it belongs to the open brackets
  | .notAhead (.rule name), stack, sure =>
    if (peeked name).isEmpty then
      if (if stack.isEmpty then outer name else inner name) then some (stack, sure) else none
    else if stack.isEmpty && !sure && (peeked name).any shows then none
    else some (stack, sure)
  | .notAhead part, stack, sure =>
    (part.stops peeked pairs shows outer inner stack sure).map fun _ => (stack, sure)
  | .branch _ part, stack, sure => part.stops peeked pairs shows outer inner stack sure
  | .rule name, stack, _ =>
    if (if stack.isEmpty then outer name else inner name) then some (stack, false) else none

theorem merge_eq_some {first second : Option (List String × Bool)}
    {next : List String} {sure : Bool}
    (merged : merge first second = some (next, sure)) :
    ∃ one other, first = some (next, one) ∧ second = some (next, other) ∧
      sure = (one && other) := by
  rcases first with _ | ⟨stack, one⟩
  · cases merged
  · rcases second with _ | ⟨others, other⟩
    · cases merged
    · simp only [merge, Option.ite_none_right_eq_some, Option.some.injEq, Prod.mk.injEq] at merged
      rcases merged with ⟨rfl, rfl, rfl⟩
      exact ⟨one, other, rfl, rfl, rfl⟩

variable {peeked : Rule → List Wanted} {pairs : Pairs} {shows : Wanted → Bool}
  {outer inner : Rule → Bool}

/-- Looking ahead may open brackets, but the stack is then the one from before. -/
theorem looks_append {part : Grammar Rule} {stack next base : List String}
    {sure after surely : Bool}
    (balanced : (part.stops peeked pairs (fun _ => false) inner inner stack sure).map
      (fun _ => (stack, sure)) = some (next, after))
    (appends : ∀ {next : List String} {after : Bool},
      part.stops peeked pairs (fun _ => false) inner inner stack sure = some (next, after) →
      ∃ later, part.stops peeked pairs shows outer inner (stack ++ base) surely =
        some (next ++ base, later)) :
    ∃ later, (part.stops peeked pairs shows outer inner (stack ++ base) surely).map
      (fun _ => (stack ++ base, surely)) = some (next ++ base, later) := by
  rcases Option.map_eq_some_iff.1 balanced with ⟨⟨found, other⟩, looked, pair⟩
  cases pair
  rcases appends looked with ⟨later, same⟩
  exact ⟨surely, by rw [same]; rfl⟩

/-- A grammar that takes brackets in pairs does so while other brackets are open, and then it
does not come to the mark. -/
theorem stops_append {part : Grammar Rule} {stack next : List String} {sure after : Bool}
    (balanced : part.stops peeked pairs (fun _ => false) inner inner stack sure =
      some (next, after))
    {base : List String} (isOpen : base ≠ []) (surely : Bool) :
    ∃ later, part.stops peeked pairs shows outer inner (stack ++ base) surely =
      some (next ++ base, later) := by
  have nonempty : ∀ stack : List String, (stack ++ base).isEmpty = false := by
    intro stack
    rw [List.isEmpty_eq_false_iff]
    exact fun nothing => isOpen (List.append_eq_nil_iff.1 nothing).2
  induction part generalizing stack next sure after surely with
  | token wanted =>
      simp only [stops, Bool.and_false, Bool.false_eq_true, if_false, Option.map_eq_some_iff,
        Prod.mk.injEq] at balanced
      rcases balanced with ⟨found, steps, rfl, -⟩
      rw [stops, nonempty, Wanted.step_append steps]
      exact ⟨false, rfl⟩
  | seq first second firstInduction secondInduction =>
      rcases Option.bind_eq_some_iff.1 balanced with ⟨⟨middle, between⟩, firstBalanced, behind⟩
      rcases firstInduction firstBalanced surely with ⟨later, same⟩
      rcases secondInduction behind later with ⟨last, sameBehind⟩
      exact ⟨last, by rw [stops, same]; exact sameBehind⟩
  | choice first second firstInduction secondInduction =>
      rcases merge_eq_some balanced with ⟨one, other, firstBalanced, secondBalanced, -⟩
      rcases firstInduction firstBalanced surely with ⟨later, same⟩
      rcases secondInduction secondBalanced surely with ⟨last, sameSecond⟩
      exact ⟨later && last, by rw [stops, same, sameSecond]; simp [merge]⟩
  | ifFits first follow other firstInduction followInduction otherInduction =>
      rcases merge_eq_some balanced with ⟨one, last, both, otherBalanced, -⟩
      rcases Option.bind_eq_some_iff.1 both with ⟨⟨middle, between⟩, firstBalanced, behind⟩
      rcases firstInduction firstBalanced surely with ⟨later, same⟩
      rcases followInduction behind later with ⟨final, sameBehind⟩
      rcases otherInduction otherBalanced surely with ⟨alternative, sameOther⟩
      refine ⟨final && alternative, ?_⟩
      rw [stops, same, sameOther]
      simp only [Option.bind_some, sameBehind, merge, if_true]
  | optional part induction =>
      rcases merge_eq_some balanced with ⟨one, other, partBalanced, nothing, -⟩
      cases nothing
      rcases induction partBalanced surely with ⟨later, same⟩
      exact ⟨later && surely, by rw [stops, same]; simp [merge]⟩
  | many part induction =>
      rcases merge_eq_some balanced with ⟨one, other, partBalanced, nothing, -⟩
      cases nothing
      rcases induction partBalanced false with ⟨later, same⟩
      exact ⟨later && false, by rw [stops, same]; simp [merge]⟩
  | ahead part induction => exact looks_append balanced fun looked => induction looked surely
  | notAhead part induction =>
      cases part with
      | token wanted =>
          simp only [stops, Bool.and_false, Bool.false_eq_true, if_false] at balanced ⊢
          rw [nonempty, Bool.false_and, if_neg Bool.false_ne_true]
          rcases Option.map_eq_some_iff.1 balanced with ⟨found, steps, pair⟩
          cases pair
          exact ⟨surely, by rw [Wanted.step_append steps]; rfl⟩
      | rule name =>
          have unseen : ((peeked name).any fun _ => false) = false := by
            rw [List.any_eq_false]
            exact fun _ _ => Bool.false_ne_true
          simp only [stops, unseen, Bool.and_false, ite_self, Bool.false_eq_true,
            if_false] at balanced
          refine ⟨surely, ?_⟩
          simp only [stops, nonempty, Bool.false_and, Bool.false_eq_true, if_false]
          split at balanced
          next none =>
            rw [Option.ite_none_right_eq_some] at balanced
            rcases balanced with ⟨allowed, ⟨⟩⟩
            rw [if_pos none, if_pos allowed]
          next some =>
            cases balanced
            rw [if_neg some]
      | _ => exact looks_append balanced fun looked => induction looked surely
  | branch kind part induction => exact induction balanced surely
  | rule name =>
      simp only [stops, ite_self, Option.ite_none_right_eq_some, Option.some.injEq,
        Prod.mk.injEq] at balanced
      rcases balanced with ⟨allowed, rfl, -⟩
      refine ⟨false, ?_⟩
      simp [stops, allowed, nonempty]

end Grammar

/-! ## Reading up to a mark -/

section

variable {Rule : Type} {body : Rule → Grammar Rule} {peeked : Rule → List Wanted} {pairs : Pairs}
  {shows : Wanted → Bool} {outer inner : Rule → Bool} {behind other : List Lexeme}

/-- The rules stop at the mark as they are called: the `outer` ones while no bracket is open, the
`inner` ones while others are. -/
structure Stopping (body : Rule → Grammar Rule) (peeked : Rule → List Wanted) (pairs : Pairs)
    (shows : Wanted → Bool) (outer inner : Rule → Bool) : Prop where
  asks : ∀ name, peeked name ≠ [] → (body name).alternatives = some (peeked name)
  outer : ∀ name, outer name = true →
    ((body name).stops peeked pairs shows outer inner [] false).map Prod.fst = some []
  inner : ∀ name, inner name = true →
    ((body name).stops peeked pairs (fun _ => false) inner inner [] false).map Prod.fst = some []

theorem Stopping.rule (stopping : Stopping body peeked pairs shows outer inner) {name : Rule}
    {stack : List String} (called : (if stack.isEmpty then outer name else inner name) = true) :
    ∃ sure, (body name).stops peeked pairs shows outer inner stack false = some (stack, sure) := by
  cases stack with
  | nil =>
      rcases Option.map_eq_some_iff.1 (stopping.outer name called) with ⟨⟨next, sure⟩, stops, same⟩
      cases same
      exact ⟨sure, stops⟩
  | cons top rest =>
      rcases Option.map_eq_some_iff.1 (stopping.inner name called) with ⟨⟨next, sure⟩, stops, same⟩
      cases same
      exact Grammar.stops_append stops (List.cons_ne_nil top rest) false

theorem exists_reads_alternatives (body : Rule → Grammar Rule)
    {grammar : Grammar Rule} {wanteds : List Wanted}
    (asks : grammar.alternatives = some wanteds) (input : List Lexeme) :
    ∃ reading, Reads takeLexeme body grammar input reading ∧
      reading.isSome = wanteds.any fun wanted => (takeLexeme wanted input).isSome := by
  induction grammar generalizing wanteds with
  | token wanted =>
      cases asks
      exact ⟨_, .token, by simp⟩
  | choice first second firstInduction secondInduction =>
      simp only [Grammar.alternatives, Option.bind_eq_bind, Option.bind_eq_some_iff, pure,
        Option.some.injEq] at asks
      rcases asks with ⟨some, firstAsks, others, secondAsks, rfl⟩
      rcases firstInduction firstAsks with ⟨reading, firstReads, fits⟩
      rcases secondInduction secondAsks with ⟨instead, secondReads, secondFits⟩
      rw [List.any_append, ← fits, ← secondFits]
      cases reading with
      | none => exact ⟨instead, .choiceSecond firstReads secondReads, rfl⟩
      | some pair => exact ⟨_, .choiceFirst firstReads, rfl⟩
  | _ => cases asks

def Shows (shows : Wanted → Bool) (input : List Lexeme) : Prop :=
  ∀ wanted, (takeLexeme wanted input).isSome = shows wanted

/-- Two inputs are the same up to the mark, where all open brackets are closed. -/
def UpToMark (pairs : Pairs) (behind other : List Lexeme) (stack : List String) (sure : Bool)
    (input : List Lexeme) (changed : List Lexeme) : Prop :=
  ∃ shared, nest pairs shared stack = some [] ∧ (sure = true → shared ≠ []) ∧
    input = shared ++ behind ∧ changed = shared ++ other

theorem UpToMark.weaken {stack : List String} {sure : Bool} {input changed : List Lexeme}
    (related : UpToMark pairs behind other stack sure input changed) (less : Bool) :
    UpToMark pairs behind other stack (sure && less) input changed := by
  rcases related with ⟨shared, nests, surely, equal, equalOther⟩
  exact ⟨shared, nests, fun both => surely (Bool.and_eq_true_iff.1 both).1, equal, equalOther⟩

theorem UpToMark.unsure {stack : List String} {sure : Bool} {input changed : List Lexeme}
    (related : UpToMark pairs behind other stack sure input changed) :
    UpToMark pairs behind other stack false input changed := by
  have less := related.weaken false
  rwa [Bool.and_false] at less

theorem Reading.Alike.mono {α β γ : Type} {view : Node → γ} {related wider : α → β → Prop}
    {reading : Reading α} {second : Reading β} (alike : Alike view related reading second)
    (wide : ∀ {rest left}, related rest left → wider rest left) :
    Alike view wider reading second := by
  cases alike with
  | none => exact .none
  | some same there => exact .some same (wide there)

section

variable {input changed : List Lexeme} {stack next : List String} {sure after : Bool}
  (related : UpToMark pairs behind other stack sure input changed)
  (here : Shows shows behind) (there : Shows shows other)

include related here

/-- Where a token that shows at the mark is missing, the mark is not there yet. -/
theorem UpToMark.surely {wanted : Wanted} (shown : shows wanted = true)
    (missing : (takeLexeme wanted input).isSome = false) :
    UpToMark pairs behind other stack true input changed := by
  rcases related with ⟨shared, nests, -, rfl, equal⟩
  refine ⟨shared, nests, ?_, rfl, equal⟩
  rintro - rfl
  rw [List.nil_append, here, shown] at missing
  cases missing

include there

theorem UpToMark.isSome_takeLexeme (wanted : Wanted) :
    (takeLexeme wanted input).isSome = (takeLexeme wanted changed).isSome := by
  rcases related with ⟨shared, nests, surely, rfl, rfl⟩
  cases shared with
  | nil => rw [List.nil_append, List.nil_append, here, there]
  | cons token rest => simp only [List.cons_append, takeLexeme, Option.isSome_map]

/-- Nothing is taken at the mark, and what is taken in front of it is taken on both sides. -/
theorem UpToMark.token {wanted : Wanted}
    (stops : (Grammar.token wanted : Grammar Rule).stops peeked pairs shows outer inner stack sure =
      some (next, after)) :
    Reading.Alike id (UpToMark pairs behind other next after)
      ((takeLexeme wanted input).map fun (node, rest) => ([node], rest))
      ((takeLexeme wanted changed).map fun (node, rest) => ([node], rest)) := by
  rcases related with ⟨shared, nests, surely, rfl, rfl⟩
  rw [Grammar.stops] at stops
  cases shared with
  | nil =>
      cases nests
      cases sure with
      | true => exact absurd rfl (surely rfl)
      | false =>
          cases shown : shows wanted with
          | true =>
              rw [shown] at stops
              cases stops
          | false =>
              have missing := (here wanted).trans shown
              have absent := (there wanted).trans shown
              rw [Option.isSome_eq_false_iff, Option.isNone_iff_eq_none] at missing absent
              rw [List.nil_append, List.nil_append, missing, absent]
              exact .none
  | cons token rest =>
      split at stops
      · cases stops
      · rcases Option.map_eq_some_iff.1 stops with ⟨_, steps, ⟨⟩⟩
        rw [List.cons_append, List.cons_append, takeLexeme, takeLexeme]
        cases accepted : wanted.accepts token with
        | none => exact .none
        | some kind =>
            rw [nest, step_of_accepts accepted steps] at nests
            exact .some rfl ⟨rest, nests, fun never => absurd never Bool.false_ne_true, rfl, rfl⟩

/-- What is looked at without being taken is there on both sides or on none. -/
theorem Reads.notAhead_upToMark (stopping : Stopping body peeked pairs shows outer inner)
    {grammar : Grammar Rule} {reading : Reading (List Lexeme)}
    (looked : Reads takeLexeme body grammar input reading)
    (part : (grammar.stops peeked pairs shows outer inner stack sure).isSome = true →
      ∃ same, Reads takeLexeme body grammar changed same ∧ reading.isSome = same.isSome)
    (stops : (Grammar.notAhead grammar).stops peeked pairs shows outer inner stack sure =
      some (next, after)) :
    ∃ same, Reads takeLexeme body (.notAhead grammar) changed same ∧
      Reading.Alike id (UpToMark pairs behind other next after)
        (if reading.isSome then none else some ([], input)) same := by
  cases grammar with
  | token wanted =>
      cases looked
      refine ⟨_, .notAhead .token, .notAhead ?_ fun missing => ?_⟩
      · rw [Option.isSome_map, Option.isSome_map, related.isSome_takeLexeme here there]
      · rw [Grammar.stops] at stops
        split at stops
        next atMark =>
          cases stops
          rw [Option.isSome_map] at missing
          exact related.surely here (Bool.and_eq_true_iff.1 atMark).2 missing
        next =>
          rcases Option.map_eq_some_iff.1 stops with ⟨_, -, ⟨⟩⟩
          exact related
  | rule name =>
      rw [Grammar.stops] at stops
      split at stops
      next =>
        rw [Option.ite_none_right_eq_some] at stops
        rcases stops with ⟨called, ⟨⟩⟩
        have some : ((Grammar.rule name).stops peeked pairs shows outer inner stack
            sure).isSome = true := by
          rw [Grammar.stops, if_pos called]
          rfl
        rcases part some with ⟨same, partReads, alike⟩
        exact ⟨_, .notAhead partReads, .notAhead alike fun _ => related⟩
      next some =>
        rw [Option.ite_none_left_eq_some] at stops
        rcases stops with ⟨-, ⟨⟩⟩
        rw [List.isEmpty_iff] at some
        have asks := stopping.asks name some
        rcases exists_reads_alternatives body asks input with ⟨found, foundReads, fits⟩
        rcases exists_reads_alternatives body asks changed with ⟨same, sameReads, sameFits⟩
        have alike : reading.isSome = same.isSome := by
          rw [looked.unique (.rule foundReads), fits, sameFits]
          exact congrArg _ (funext (related.isSome_takeLexeme here there))
        exact ⟨_, .notAhead (.rule sameReads), .notAhead alike fun _ => related⟩
  | _ =>
      rcases Option.map_eq_some_iff.1 stops with ⟨_, partStops, ⟨⟩⟩
      rcases part (Option.isSome_of_eq_some partStops) with ⟨same, partReads, alike⟩
      exact ⟨_, .notAhead partReads, .notAhead alike fun _ => related⟩

end

/-- A grammar that stops at the mark reads the same, whatever stands behind the mark. -/
theorem Reads.upToMark (stopping : Stopping body peeked pairs shows outer inner)
    (here : Shows shows behind) (there : Shows shows other) {grammar : Grammar Rule}
    {input : List Lexeme} {reading : Reading (List Lexeme)}
    (reads : Reads takeLexeme body grammar input reading) {stack next : List String}
    {sure after : Bool}
    (stops : grammar.stops peeked pairs shows outer inner stack sure = some (next, after))
    {changed : List Lexeme} (related : UpToMark pairs behind other stack sure input changed) :
    ∃ same, Reads takeLexeme body grammar changed same ∧
      Reading.Alike id (UpToMark pairs behind other next after) reading same := by
  induction reads generalizing stack next sure after changed with
  | token => exact ⟨_, .token, related.token here there stops⟩
  | seq _ _ first second =>
      rcases Option.bind_eq_some_iff.1 stops with ⟨⟨middle, between⟩, firstStops, secondStops⟩
      rcases first firstStops related with ⟨_, firstReads, ⟨⟩ | ⟨same, left⟩⟩
      rcases second secondStops left with ⟨last, secondReads, alike⟩
      exact ⟨_, .seq firstReads secondReads, alike.after same⟩
  | seqNone _ first =>
      rcases Option.bind_eq_some_iff.1 stops with ⟨⟨middle, between⟩, firstStops, secondStops⟩
      rcases first firstStops related with ⟨_, firstReads, ⟨⟩⟩
      exact ⟨none, .seqNone firstReads, .none⟩
  | choiceFirst _ first =>
      rcases Grammar.merge_eq_some stops with ⟨one, another, firstStops, secondStops, rfl⟩
      rcases first firstStops related with ⟨_, firstReads, ⟨⟩ | ⟨same, left⟩⟩
      exact ⟨_, .choiceFirst firstReads, .some same (left.weaken another)⟩
  | choiceSecond _ _ first second =>
      rcases Grammar.merge_eq_some stops with ⟨one, another, firstStops, secondStops, rfl⟩
      rcases first firstStops related with ⟨_, firstReads, ⟨⟩⟩
      rcases second secondStops related with ⟨last, secondReads, alike⟩
      refine ⟨last, .choiceSecond firstReads secondReads, alike.mono fun left => ?_⟩
      rw [Bool.and_comm]
      exact left.weaken one
  | fits _ _ first follow =>
      rcases Grammar.merge_eq_some stops with ⟨one, another, both, otherStops, rfl⟩
      rcases Option.bind_eq_some_iff.1 both with ⟨⟨middle, between⟩, firstStops, followStops⟩
      rcases first firstStops related with ⟨_, firstReads, ⟨⟩ | ⟨same, left⟩⟩
      rcases follow followStops left with ⟨last, followReads, alike⟩
      exact ⟨_, .fits firstReads followReads,
        (alike.mono fun left => left.weaken another).after same⟩
  | fitsNot _ _ first follow =>
      rcases Grammar.merge_eq_some stops with ⟨one, another, both, otherStops, rfl⟩
      rcases Option.bind_eq_some_iff.1 both with ⟨⟨middle, between⟩, firstStops, followStops⟩
      rcases first firstStops related with ⟨_, firstReads, ⟨⟩⟩
      rcases follow otherStops related with ⟨last, followReads, alike⟩
      refine ⟨last, .fitsNot firstReads followReads, alike.mono fun left => ?_⟩
      rw [Bool.and_comm]
      exact left.weaken one
  | optional _ part =>
      rcases Grammar.merge_eq_some stops with ⟨one, another, partStops, nothing, rfl⟩
      cases nothing
      rcases part partStops related with ⟨_, partReads, alike⟩
      refine ⟨_, .optional partReads, ?_⟩
      cases alike with
      | none =>
          refine .some rfl ?_
          rw [Bool.and_comm]
          exact related.weaken one
      | some same left => exact .some same (left.weaken sure)
  | manyEnd _ part =>
      rcases Grammar.merge_eq_some stops with ⟨one, another, partStops, nothing, rfl⟩
      cases nothing
      rcases part partStops related.unsure with ⟨_, partReads, ⟨⟩⟩
      refine ⟨_, .manyEnd partReads, .some rfl ?_⟩
      rw [Bool.and_false]
      exact related.unsure
  | manyMore _ _ part more =>
      rcases Grammar.merge_eq_some stops with ⟨one, another, partStops, nothing, rfl⟩
      cases nothing
      rcases part partStops related.unsure with ⟨_, partReads, ⟨⟩ | ⟨same, left⟩⟩
      have again : (Grammar.many _).stops peeked pairs shows outer inner stack false =
          some (stack, one && false) := stops
      rcases more again left.unsure with ⟨last, moreReads, alike⟩
      exact ⟨_, .manyMore partReads moreReads, alike.after same⟩
  | ahead _ part =>
      rcases Option.map_eq_some_iff.1 stops with ⟨⟨found, later⟩, partStops, ⟨⟩⟩
      rcases part partStops related with ⟨_, partReads, alike⟩
      exact ⟨_, .ahead partReads, .ahead alike.isSome_eq related⟩
  | notAhead looked part =>
      refine looked.notAhead_upToMark related here there stopping (fun some => ?_) stops
      rcases Option.isSome_iff_exists.1 some with ⟨⟨found, later⟩, partStops⟩
      rcases part partStops related with ⟨same, partReads, alike⟩
      exact ⟨same, partReads, alike.isSome_eq⟩
  | branch _ part =>
      rcases part stops related with ⟨_, partReads, alike⟩
      refine ⟨_, .branch partReads, ?_⟩
      cases alike with
      | none => exact .none
      | some same left =>
          rw [List.map_id, List.map_id] at same
          exact .some (by rw [same]) left
  | rule _ part =>
      rw [Grammar.stops, Option.ite_none_right_eq_some] at stops
      rcases stops with ⟨called, ⟨⟩⟩
      rcases stopping.rule called with ⟨later, bodyStops⟩
      rcases part bodyStops related.unsure with ⟨last, partReads, alike⟩
      exact ⟨last, .rule partReads, alike.mono fun left => left.unsure⟩

/-- What is taken opens and closes brackets as the grammar says. -/
theorem Yields.nests (stopping : Stopping body peeked pairs shows outer inner)
    {grammar : Grammar Rule}
    {taken : List Lexeme} {nodes : List Node} (yields : Yields body grammar taken nodes)
    {stack next : List String} {sure after : Bool}
    (stops : grammar.stops peeked pairs shows outer inner stack sure = some (next, after)) :
    nest pairs taken stack = some next := by
  -- on what was taken: each part leaves the stack that the grammar foresees
  induction yields generalizing stack next sure after with
  | token accepted =>
      rw [Grammar.stops] at stops
      split at stops
      · cases stops
      · rcases Option.map_eq_some_iff.1 stops with ⟨_, steps, ⟨⟩⟩
        rw [nest, step_of_accepts accepted steps]
        rfl
  | seq _ _ first second =>
      rcases Option.bind_eq_some_iff.1 stops with ⟨⟨middle, between⟩, firstStops, secondStops⟩
      rw [nest_append, first firstStops]
      exact second secondStops
  | choiceFirst _ first =>
      rcases Grammar.merge_eq_some stops with ⟨one, another, firstStops, -, -⟩
      exact first firstStops
  | choiceSecond _ second =>
      rcases Grammar.merge_eq_some stops with ⟨one, another, -, secondStops, -⟩
      exact second secondStops
  | fits _ _ first follow =>
      rcases Grammar.merge_eq_some stops with ⟨one, another, both, -, -⟩
      rcases Option.bind_eq_some_iff.1 both with ⟨⟨middle, between⟩, firstStops, followStops⟩
      rw [nest_append, first firstStops]
      exact follow followStops
  | fitsNot _ instead =>
      rcases Grammar.merge_eq_some stops with ⟨one, another, -, otherStops, -⟩
      exact instead otherStops
  | optional _ part =>
      rcases Grammar.merge_eq_some stops with ⟨one, another, partStops, nothing, -⟩
      exact part partStops
  | optionalNone =>
      rcases Grammar.merge_eq_some stops with ⟨one, another, -, nothing, -⟩
      cases nothing
      rfl
  | manyEnd =>
      rcases Grammar.merge_eq_some stops with ⟨one, another, -, nothing, -⟩
      cases nothing
      rfl
  | manyMore _ _ part more =>
      rcases Grammar.merge_eq_some stops with ⟨one, another, partStops, nothing, rfl⟩
      cases nothing
      have again : (Grammar.many _).stops peeked pairs shows outer inner stack false =
          some (stack, one && false) := stops
      rw [nest_append, part partStops]
      exact more again
  | ahead =>
      rcases Option.map_eq_some_iff.1 stops with ⟨_, -, ⟨⟩⟩
      rfl
  | @notAhead part =>
      have same : next = stack := by
        cases part with
        | token wanted =>
            rw [Grammar.stops] at stops
            split at stops
            · cases stops
              rfl
            · rcases Option.map_eq_some_iff.1 stops with ⟨_, -, ⟨⟩⟩
              rfl
        | rule name =>
            rw [Grammar.stops] at stops
            split at stops
            · rw [Option.ite_none_right_eq_some] at stops
              rcases stops with ⟨-, ⟨⟩⟩
              rfl
            · rw [Option.ite_none_left_eq_some] at stops
              rcases stops with ⟨-, ⟨⟩⟩
              rfl
        | _ =>
            rcases Option.map_eq_some_iff.1 stops with ⟨_, -, ⟨⟩⟩
            rfl
      rw [same]
      rfl
  | branch _ part => exact part stops
  | rule _ part =>
      rw [Grammar.stops, Option.ite_none_right_eq_some] at stops
      rcases stops with ⟨called, ⟨⟩⟩
      rcases stopping.rule called with ⟨later, bodyStops⟩
      exact part bodyStops

theorem Reads.inFrontOf (stopping : Stopping body peeked pairs shows outer inner)
    {grammar : Grammar Rule}
    {sure : Bool} (stops : grammar.stops peeked pairs shows outer inner [] false = some ([], sure))
    {input rest : List Lexeme} {nodes : List Node}
    (reads : Reads takeLexeme body grammar input (some (nodes, rest))) (shared : List Lexeme)
    {far : List Lexeme} (nests : nest pairs shared [] = some []) (equal : rest = shared ++ far)
    (here : Shows shows far) :
    ∃ taken, input = taken ++ rest ∧ nest pairs taken [] = some [] ∧ ∀ other, Shows shows other →
      Reads takeLexeme body grammar (taken ++ (shared ++ other))
        (some (nodes, shared ++ other)) := by
  subst equal
  rcases reads.yields rfl with ⟨taken, rfl, yields⟩
  have balanced := yields.nests stopping stops
  refine ⟨taken, rfl, balanced, fun other there => ?_⟩
  have both : nest pairs (taken ++ shared) [] = some [] := by
    rw [nest_append, balanced]
    exact nests
  rcases reads.upToMark stopping here there stops ⟨taken ++ shared, both,
    fun never => absurd never Bool.false_ne_true, (List.append_assoc ..).symm, rfl⟩ with
    ⟨_, again, ⟨⟩ | ⟨same, left, -, -, equal, rfl⟩⟩
  rw [List.map_id, List.map_id] at same
  cases List.append_cancel_right equal
  cases same
  rwa [List.append_assoc] at again

end

end Verbatim.Java
