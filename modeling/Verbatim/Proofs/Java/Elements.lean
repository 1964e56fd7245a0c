import Mathlib.Data.List.Nodup
import Verbatim.Java.Elements
import Verbatim.Proofs.Java.Lossless
import Verbatim.Proofs.Tree.Frames

/-! Elements of a file have different numbers. No number is given out twice, but nodes that were
kept may be found again by another attempt. So every number belongs to a place in the text, told
by the tokens that are left in front of its node; an attempt finds nodes only where it takes
tokens, and the parts of a node take tokens one behind the other. -/

namespace Verbatim

namespace Node

/-- The numbers of all nodes from the first to the last. -/
def numbers (node : Node) : List Nat := node.preorder.map (·.id.number)

theorem numbers_withId (node : Node) (number : Nat) :
    (node.withId ⟨number⟩).numbers = number :: node.children.flatMap numbers := by
  rw [numbers, preorder_eq, List.map_cons, List.map_flatMap]
  rfl

theorem numbers_mapHeads {change : NodeHead → NodeHead} (keeps : ∀ head, (change head).id = head.id)
    (node : Node) : (node.mapHeads change).numbers = node.numbers := by
  induction node using Node.induction with
  | step node induction =>
      rcases node with ⟨head, children⟩
      rw [mapHeads_mk, numbers, numbers, preorder_eq, preorder_eq, List.map_cons, List.map_cons,
        List.map_flatMap, List.map_flatMap, List.flatMap_map]
      exact congrArg₂ List.cons (congrArg _ (keeps head)) (List.flatMap_congr induction)

def numberedHead (head : NodeHead) : NodeHead := { bareHead head with id := head.id }

theorem numbers_of_sealAgainst {root tree : Node} {source : String}
    (treeSealed : root.hoist.sealAgainst source = .ok tree) : tree.numbers = root.numbers := by
  have keeps (head : NodeHead) : (numberedHead head).id = head.id := rfl
  have same := congrArg (mapHeads numberedHead) (sealAgainst_sealed treeSealed).2
  simp only [withoutOrigins, mapHeads_mapHeads] at same
  calc tree.numbers = (tree.mapHeads numberedHead).numbers := (numbers_mapHeads keeps tree).symm
    _ = (root.hoist.mapHeads numberedHead).numbers := congrArg numbers same
    _ = (root.mapHeads numberedHead).numbers := by rw [mapHeads_hoist fun _ _ _ => rfl]
    _ = root.numbers := numbers_mapHeads keeps root

end Node

namespace Java

/-- A reading without the numbers of its nodes. -/
def Reading.unnumbered {α : Type} (reading : Reading α) : Reading α :=
  reading.map (Prod.map (List.map Node.withoutIds) id)

theorem Reading.unnumbered_after {α : Type} (nodes : List Node) (reading : Reading α) :
    (reading.after nodes).unnumbered = reading.unnumbered.after (nodes.map Node.withoutIds) := by
  cases reading with
  | none => rfl
  | some pair => simp [Reading.unnumbered, Reading.after]

theorem Grammar.withoutIds_grow (kind : Kind) (nodes : List Node) :
    (grow kind nodes).withoutIds = grow kind (nodes.map Node.withoutIds) := by
  rw [grow, Node.branch, Node.withLeading, Node.withoutIds_mk]
  rfl

/-! ## Places -/

/-- The numbers of the nodes are different ones. All were given out, for nodes that were built
with no more than `front` tokens left and more than `behind`. -/
structure Row (place : Nat → Nat) (free front behind : Nat) (nodes : List Node) : Prop where
  different : (nodes.flatMap Node.numbers).Nodup
  placed : ∀ number ∈ nodes.flatMap Node.numbers,
    number < free ∧ behind < place number ∧ place number ≤ front

/-- More numbers were given out. -/
structure Later (place : Nat → Nat) (free : Nat) (later : Nat → Nat) (free' : Nat) : Prop where
  le : free ≤ free'
  same : ∀ number < free, later number = place number

section

variable {place place' place'' : Nat → Nat} {free free' free'' front middle behind : Nat}
  {nodes others : List Node}

theorem Later.refl : Later place free place free := ⟨Nat.le_refl _, fun _ _ => rfl⟩

theorem Later.trans (first : Later place free place' free')
    (second : Later place' free' place'' free'') : Later place free place'' free'' := by
  refine ⟨Nat.le_trans first.le second.le, fun number known => ?_⟩
  rw [second.same number (Nat.lt_of_lt_of_le known first.le), first.same number known]

theorem Later.enter (place : Nat → Nat) (free front : Nat) :
    Later place free (Function.update place free front) (free + 1) :=
  ⟨Nat.le_succ _, fun _ known => Function.update_of_ne (Nat.ne_of_lt known) ..⟩

theorem Row.nil : Row place free front behind [] :=
  ⟨List.nodup_nil, fun _ member => absurd member List.not_mem_nil⟩

theorem Row.mono (row : Row place free front behind nodes) (later : Later place free place' free') :
    Row place' free' front behind nodes := by
  refine ⟨row.different, fun number member => ?_⟩
  rcases row.placed number member with ⟨given, above, below⟩
  rw [later.same number given]
  exact ⟨Nat.lt_of_lt_of_le given later.le, above, below⟩

theorem Row.append (row : Row place free front middle nodes)
    (next : Row place free middle behind others) (first : middle ≤ front)
    (second : behind ≤ middle) :
    Row place free front behind (nodes ++ others) := by
  constructor
  · rw [List.flatMap_append, List.nodup_append]
    refine ⟨row.different, next.different, ?_⟩
    rintro number inRow other inNext rfl
    have above := (row.placed number inRow).2.1
    have below := (next.placed number inNext).2.2
    omega
  · rw [List.flatMap_append, List.forall_mem_append]
    constructor
    · intro number member
      rcases row.placed number member with ⟨given, above, below⟩
      exact ⟨given, by omega, below⟩
    · intro number member
      rcases next.placed number member with ⟨given, above, below⟩
      exact ⟨given, above, by omega⟩

theorem Row.enter {node : Node} (row : Row place free front behind node.children)
    (takes : behind < front) :
    Row (Function.update place free front) (free + 1) front behind [node.withId ⟨free⟩] := by
  constructor
  · rw [List.flatMap_singleton, Node.numbers_withId, List.nodup_cons]
    exact ⟨fun member => Nat.lt_irrefl _ (row.placed free member).1, row.different⟩
  · rw [List.flatMap_singleton, Node.numbers_withId, List.forall_mem_cons, Function.update_self]
    exact ⟨⟨Nat.lt_succ_self _, takes, Nat.le_refl _⟩,
      (row.mono (Later.enter place free front)).placed⟩

end

/-! ## Attempts -/

section

variable {Rule : Type} {body : Rule → Grammar Rule} {all : List Lexeme}

/-- What was given is what the grammar reads, and its nodes are a row. -/
structure Given (body : Rule → Grammar Rule) (place : Nat → Nat)
    (free : Nat) (grammar : Grammar Rule)
    (tokens : List Lexeme) (result : Reading (List Lexeme)) : Prop where
  reads : Reads takeLexeme body grammar tokens result.unnumbered
  row : ∀ nodes rest, result = some (nodes, rest) → Row place free tokens.length rest.length nodes

/-- What was kept of a rule is what it gives wherever so many of all tokens are left. -/
def Ledger.Sound (body : Rule → Grammar Rule) (all : List Lexeme) (place : Nat → Nat)
    (ledger : Ledger Rule) : Prop :=
  ∀ entry ∈ ledger.kept, ∀ tokens, tokens <:+ all → tokens.length = entry.left →
    Given body place ledger.next (.rule entry.name) tokens entry.result

/-- After the attempt all numbers that were given out have their places, and what was given and
kept is right. -/
structure Attempt.Good (body : Rule → Grammar Rule) (all : List Lexeme)
    (place : Nat → Nat) (free : Nat)
    (grammar : Grammar Rule) (tokens : List Lexeme) (attempt : Attempt Rule) (place' : Nat → Nat) :
    Prop where
  later : Later place free place' attempt.ledger.next
  sound : attempt.ledger.Sound body all place'
  given : Given body place' attempt.ledger.next grammar tokens attempt.result

/-- Whatever was given out and kept before, the attempt is good. -/
def Builds (body : Rule → Grammar Rule) (all : List Lexeme) (grammar : Grammar Rule)
    (tokens : List Lexeme) (build : Ledger Rule → Attempt Rule) : Prop :=
  ∀ place ledger, ledger.Sound body all place →
    ∃ place', (build ledger).Good body all place ledger.next grammar tokens place'

theorem Given.mono {place place' : Nat → Nat} {free free' : Nat} {grammar : Grammar Rule}
    {tokens : List Lexeme} {result : Reading (List Lexeme)}
    (given : Given body place free grammar tokens result) (later : Later place free place' free') :
    Given body place' free' grammar tokens result :=
  ⟨given.reads, fun nodes rest found => (given.row nodes rest found).mono later⟩

theorem Ledger.Sound.mono {place place' : Nat → Nat} {ledger : Ledger Rule} {free : Nat}
    (sound : ledger.Sound body all place) (later : Later place ledger.next place' free) :
    Ledger.Sound body all place' { ledger with next := free } :=
  fun entry member tokens isEnd left => (sound entry member tokens isEnd left).mono later

theorem Given.reads_some {place : Nat → Nat} {free : Nat} {grammar : Grammar Rule}
    {tokens rest : List Lexeme} {nodes : List Node}
    (given : Given body place free grammar tokens (some (nodes, rest))) :
    Reads takeLexeme body grammar tokens (some (nodes.map Node.withoutIds, rest)) :=
  given.reads

theorem Reads.isSuffix {grammar : Grammar Rule} {tokens rest : List Lexeme} {nodes : List Node}
    (reads : Reads takeLexeme body grammar tokens (some (nodes, rest))) : rest <:+ tokens := by
  rcases reads.yields rfl with ⟨taken, rfl, -⟩
  exact List.suffix_append taken rest

theorem Ledger.Sound.enter {place : Nat → Nat} {ledger : Ledger Rule} {grammar : Grammar Rule}
    {tokens rest : List Lexeme} {node : Node} (sound : ledger.Sound body all place)
    (row : Row place ledger.next tokens.length rest.length node.children)
    (takes : rest.length < tokens.length)
    (reads : Reads takeLexeme body grammar tokens (some ([node.withoutIds], rest))) :
    (ledger.enter node rest).Good body all place ledger.next grammar tokens
      (Function.update place ledger.next tokens.length) := by
  have later := Later.enter place ledger.next tokens.length
  rw [← node.withoutIds_withId ⟨ledger.next⟩] at reads
  refine ⟨later, sound.mono later, reads, fun nodes left found => ?_⟩
  cases found
  exact row.enter takes

namespace Attempt.Good

variable {place place' : Nat → Nat} {free : Nat} {grammar : Grammar Rule} {tokens : List Lexeme}
  {attempt : Attempt Rule}

theorem changed {other : Grammar Rule} {result : Reading (List Lexeme)}
    (good : attempt.Good body all place free grammar tokens place')
    (nothing : result = none ∨ result = some ([], tokens))
    (reads : Reads takeLexeme body other tokens result) :
    Good body all place free other tokens ⟨result, attempt.ledger⟩ place' := by
  refine ⟨good.later, good.sound, ?_, fun nodes rest found => ?_⟩
  · rcases nothing with rfl | rfl <;> exact reads
  · rcases nothing with rfl | rfl <;> cases found
    exact .nil

theorem followed {next : Attempt Rule} {place'' : Nat → Nat} {other whole : Grammar Rule}
    (good : attempt.Good body all place free grammar tokens place')
    (after : next.Good body all place' attempt.ledger.next other tokens place'')
    (reads : Reads takeLexeme body whole tokens (Reading.unnumbered next.result)) :
    next.Good body all place free whole tokens place'' :=
  ⟨good.later.trans after.later, after.sound, reads, after.given.row⟩

theorem andThen {empty : Rule → Bool} (sound : EmptyRules body empty) {second whole : Grammar Rule}
    {other : List Lexeme → Ledger Rule → Attempt Rule} {nodes : List Node} {rest : List Lexeme}
    (good : attempt.Good body all place free grammar tokens place')
    (found : attempt.result = some (nodes, rest)) (next : Builds body all second rest (other rest))
    (both : ∀ reading, Reads takeLexeme body second rest reading →
      Reads takeLexeme body whole tokens (reading.after (nodes.map Node.withoutIds))) :
    ∃ place'', (attempt.andThen other).Good body all place free whole tokens place'' := by
  have given := good.given
  rw [found] at given
  rcases next place' attempt.ledger good.sound with ⟨place'', after⟩
  refine ⟨place'', ?_⟩
  rw [Attempt.andThen, found]
  refine ⟨good.later.trans after.later, after.sound, ?_, fun all left fit => ?_⟩
  · have reads := both _ after.given.reads
    rw [← Reading.unnumbered_after] at reads
    exact reads
  · rcases Reading.after_eq_some_iff.1 fit with ⟨more, moreFound, rfl⟩
    have moreGiven := after.given
    rw [moreFound] at moreGiven
    exact ((given.row nodes rest rfl).mono after.later).append (moreGiven.row more left rfl)
      (given.reads_some.rest_length sound).1 (moreGiven.reads_some.rest_length sound).1

end Attempt.Good

/-! One lemma for each way of building. -/

namespace Builds

variable {tokens : List Lexeme} {first second part : Grammar Rule}
  {build : Ledger Rule → Attempt Rule}

theorem token (call : Rule → List Lexeme → Ledger Rule → Attempt Rule) (wanted : Wanted) :
    Builds body all (.token wanted) tokens ((Grammar.token wanted).build call tokens) := by
  intro place ledger kept
  have missing (none : takeLexeme wanted tokens = none) :
      (Attempt.failed ledger).Good body all place ledger.next (.token wanted) tokens place :=
    ⟨.refl, kept, .token_of_none none, fun _ _ found => by cases found⟩
  cases tokens with
  | nil => exact ⟨place, missing rfl⟩
  | cons lexeme rest =>
      rw [Grammar.build]
      cases accepted : wanted.accepts lexeme with
      | none => exact ⟨place, missing (takeLexeme_cons_eq_none.2 accepted)⟩
      | some kind =>
          exact ⟨_, kept.enter .nil (Nat.lt_succ_self _) (.token_of_accepts accepted rest)⟩

theorem seq {empty : Rule → Bool} (sound : EmptyRules body empty)
    {other : List Lexeme → Ledger Rule → Attempt Rule} (builds : Builds body all first tokens build)
    (next : ∀ nodes rest, Reads takeLexeme body first tokens (some (nodes, rest)) →
      Builds body all second rest (other rest)) :
    Builds body all (.seq first second) tokens fun ledger => (build ledger).andThen other := by
  intro place ledger kept
  rcases builds place ledger kept with ⟨place', good⟩
  have given := good.given
  cases found : (build ledger).result with
  | none =>
      rw [found] at given
      simp only [Attempt.andThen, found]
      exact ⟨place', good.changed (.inl found) (found ▸ .seqNone given.reads)⟩
  | some pair =>
      rw [found] at given
      exact good.andThen sound found (next _ _ given.reads) fun _ => .seq given.reads

theorem choice (builds : Builds body all first tokens build)
    {other : Ledger Rule → Attempt Rule} (otherBuilds : Builds body all second tokens other) :
    Builds body all (.choice first second) tokens fun ledger => (build ledger).orElse other := by
  intro place ledger kept
  rcases builds place ledger kept with ⟨place', good⟩
  have given := good.given
  simp only [Attempt.orElse]
  cases found : (build ledger).result with
  | none =>
      rw [found] at given
      rcases otherBuilds place' _ good.sound with ⟨place'', after⟩
      exact ⟨place'', good.followed after (.choiceSecond given.reads after.given.reads)⟩
  | some pair =>
      rw [found] at given
      exact ⟨place', good.later, good.sound, by rw [found]; exact .choiceFirst given.reads,
        good.given.row⟩

theorem ifFits {empty : Rule → Bool} (sound : EmptyRules body empty) {third : Grammar Rule}
    {next : List Lexeme → Ledger Rule → Attempt Rule} {other : Ledger Rule → Attempt Rule}
    (builds : Builds body all first tokens build)
    (nextBuilds : ∀ nodes rest, Reads takeLexeme body first tokens (some (nodes, rest)) →
      Builds body all second rest (next rest))
    (otherBuilds : Builds body all third tokens other) :
    Builds body all (.ifFits first second third) tokens fun ledger =>
      (build ledger).ifFits next other := by
  intro place ledger kept
  rcases builds place ledger kept with ⟨place', good⟩
  have given := good.given
  simp only [Attempt.ifFits]
  cases found : (build ledger).result with
  | none =>
      rw [found] at given
      rcases otherBuilds place' _ good.sound with ⟨place'', after⟩
      exact ⟨place'', good.followed after (.fitsNot given.reads after.given.reads)⟩
  | some pair =>
      rw [found] at given
      exact good.andThen sound found (nextBuilds _ _ given.reads) fun _ => .fits given.reads

theorem optional (builds : Builds body all part tokens build) :
    Builds body all (.optional part) tokens fun ledger => (build ledger).orNothing tokens := by
  intro place ledger kept
  rcases builds place ledger kept with ⟨place', good⟩
  have reads := Reads.optional good.given.reads
  simp only [Attempt.orNothing]
  cases found : (build ledger).result with
  | none =>
      rw [found] at reads
      exact ⟨place', good.changed (.inr rfl) reads⟩
  | some pair =>
      rw [found] at reads
      exact ⟨place', good.later, good.sound, reads, fun nodes rest fit =>
        good.given.row nodes rest (found.trans fit)⟩

theorem ahead (builds : Builds body all part tokens build) :
    Builds body all (.ahead part) tokens fun ledger => (build ledger).ahead tokens := by
  intro place ledger kept
  rcases builds place ledger kept with ⟨place', good⟩
  have reads := Reads.ahead good.given.reads
  rw [Reading.unnumbered, Option.isSome_map] at reads
  refine ⟨place', good.changed ?_ reads⟩
  split
  · exact .inr rfl
  · exact .inl rfl

theorem notAhead (builds : Builds body all part tokens build) :
    Builds body all (.notAhead part) tokens fun ledger => (build ledger).notAhead tokens := by
  intro place ledger kept
  rcases builds place ledger kept with ⟨place', good⟩
  have reads := Reads.notAhead good.given.reads
  rw [Reading.unnumbered, Option.isSome_map] at reads
  refine ⟨place', good.changed ?_ reads⟩
  split
  · exact .inl rfl
  · exact .inr rfl

theorem branch {empty : Rule → Bool} (sound : EmptyRules body empty) {kind : Kind}
    (takes : part.mayTakeNothing empty = false) (builds : Builds body all part tokens build) :
    Builds body all (.branch kind part) tokens fun ledger => (build ledger).under kind := by
  intro place ledger kept
  rcases builds place ledger kept with ⟨place', good⟩
  have given := good.given
  simp only [Attempt.under]
  cases found : (build ledger).result with
  | none =>
      rw [found] at given
      exact ⟨place', good.changed (.inl found) (found ▸ .branch given.reads)⟩
  | some pair =>
      rcases pair with ⟨nodes, rest⟩
      rw [found] at given
      have reads : Reads takeLexeme body (.branch kind part) tokens
          (some ([(Grammar.grow kind nodes).withoutIds], rest)) := by
        rw [Grammar.withoutIds_grow]
        exact .branch given.reads
      have row := given.row nodes rest rfl
      have entered := good.sound.enter row ((given.reads_some.rest_length sound).2 takes) reads
      exact ⟨_, good.followed entered entered.given.reads⟩

theorem rule {name : Rule} (builds : Builds body all (body name) tokens build) :
    Builds body all (.rule name) tokens build := by
  intro place ledger kept
  rcases builds place ledger kept with ⟨place', good⟩
  exact ⟨place', good.later, good.sound, .rule good.given.reads, good.given.row⟩

end Builds

variable {empty : Rule → Bool}

theorem repeatBuild_builds (sound : EmptyRules body empty) {part : Grammar Rule}
    (takes : part.mayTakeNothing empty = false)
    {step : List Lexeme → Ledger Rule → Attempt Rule} {whole : List Lexeme}
    (steps : ∀ tokens : List Lexeme, tokens <:+ whole → Builds body all part tokens (step tokens))
    {rounds tokens : List Lexeme} (enough : tokens.length ≤ rounds.length)
    (isEnd : tokens <:+ whole) :
    Builds body all (.many part) tokens (repeatBuild step rounds tokens) := by
  induction rounds generalizing tokens with
  | nil =>
      intro place ledger kept
      rcases steps tokens isEnd place ledger kept with ⟨place', good⟩
      have given := good.given
      cases found : (step tokens ledger).result with
      | none =>
          rw [found] at given
          refine ⟨place, .refl, kept, .manyEnd given.reads, fun _ _ nothing => ?_⟩
          cases nothing
          exact .nil
      | some pair =>
          rw [found] at given
          have shorter := (given.reads_some.rest_length sound).2 takes
          rw [List.length_nil] at enough
          omega
  | cons _ rounds induction =>
      intro place ledger kept
      rcases steps tokens isEnd place ledger kept with ⟨place', good⟩
      have given := good.given
      rw [repeatBuild]
      cases found : (step tokens ledger).result with
      | none =>
          rw [found] at given
          exact ⟨place', good.changed (.inr rfl) (.manyEnd given.reads)⟩
      | some pair =>
          rw [found] at given
          have partReads := given.reads_some
          have shorter := (partReads.rest_length sound).2 takes
          rw [List.length_cons] at enough
          exact good.andThen sound found (induction (by omega) (partReads.isSuffix.trans isEnd))
            fun _ => .manyMore partReads

variable {level : Rule → Nat} {levels : Nat}

/-- A grammar builds as it should if the calls do that it makes: calls with fewer tokens, and
calls of lower rules. -/
theorem build_builds (sound : EmptyRules body empty)
    {call : Rule → List Lexeme → Ledger Rule → Attempt Rule} {bound : Nat}
    (calls : ∀ (name : Rule) (tokens : List Lexeme), tokens <:+ all →
      tokens.length * levels + level name < bound →
        Builds body all (.rule name) tokens (call name tokens))
    {grammar : Grammar Rule} {limit : Nat} {tokens : List Lexeme}
    (starts : grammar.startsBelow empty level levels limit = true)
    (grows : grammar.BranchesGrow empty = true) (isEnd : tokens <:+ all)
    (enough : tokens.length * levels + limit ≤ bound) :
    Builds body all grammar tokens (grammar.build call tokens) := by
  -- on the grammar, as for reading without elements
  induction grammar generalizing limit tokens with
  | token wanted => exact .token call wanted
  | seq first second firstInduction secondInduction =>
      rw [Grammar.startsBelow, Bool.and_eq_true] at starts
      rw [Grammar.BranchesGrow, Bool.and_eq_true] at grows
      exact .seq sound (firstInduction starts.1 grows.1 isEnd enough) fun _ _ reads =>
        secondInduction starts.2 grows.2 (reads.isSuffix.trans isEnd)
          (reads.limit_behind sound enough)
  | choice first second firstInduction secondInduction =>
      rw [Grammar.startsBelow, Bool.and_eq_true] at starts
      rw [Grammar.BranchesGrow, Bool.and_eq_true] at grows
      exact .choice (firstInduction starts.1 grows.1 isEnd enough)
        (secondInduction starts.2 grows.2 isEnd enough)
  | ifFits first next other firstInduction nextInduction otherInduction =>
      rw [Grammar.startsBelow, Bool.and_eq_true, Bool.and_eq_true] at starts
      rw [Grammar.BranchesGrow, Bool.and_eq_true, Bool.and_eq_true] at grows
      exact .ifFits sound (firstInduction starts.1.1 grows.1.1 isEnd enough)
        (fun _ _ reads => nextInduction starts.1.2 grows.1.2 (reads.isSuffix.trans isEnd)
          (reads.limit_behind sound enough))
        (otherInduction starts.2 grows.2 isEnd enough)
  | optional part induction => exact .optional (induction starts grows isEnd enough)
  | many part induction =>
      rw [Grammar.startsBelow, Bool.and_eq_true, Bool.not_eq_true'] at starts
      refine repeatBuild_builds sound starts.2 (fun left isLeft => ?_) (Nat.le_refl _)
        (List.suffix_refl _)
      have product := Nat.mul_le_mul_right levels isLeft.length_le
      exact induction starts.1 grows (isLeft.trans isEnd) (by omega)
  | ahead part induction => exact .ahead (induction starts grows isEnd enough)
  | notAhead part induction => exact .notAhead (induction starts grows isEnd enough)
  | branch kind part induction =>
      simp only [Grammar.BranchesGrow, Bool.and_eq_true, Bool.not_eq_true'] at grows
      exact .branch sound grows.1.2 (induction starts grows.2 isEnd enough)
  | rule name =>
      rw [Grammar.startsBelow, decide_eq_true_eq] at starts
      exact calls name tokens isEnd (by omega)

/-- What was kept is given again; it was read from the same tokens, for there is one end of all
tokens of any length. -/
theorem once_builds [DecidableEq Rule] {name : Rule} {tokens : List Lexeme} (isEnd : tokens <:+ all)
    {attempt : Ledger Rule → Attempt Rule} (builds : Builds body all (.rule name) tokens attempt) :
    Builds body all (.rule name) tokens (Grammar.once name tokens.length attempt) := by
  intro place ledger kept
  rw [Grammar.once]
  cases found : ledger.find? name tokens.length with
  | some entry =>
      have same := List.find?_some found
      rw [Bool.and_eq_true, decide_eq_true_eq, decide_eq_true_eq] at same
      rcases same with ⟨rfl, left⟩
      exact ⟨place, .refl, kept,
        kept entry (List.mem_of_find?_eq_some found) tokens isEnd left.symm⟩
  | none =>
      rcases builds place ledger kept with ⟨place', good⟩
      refine ⟨place', good.later, List.forall_mem_cons.2 ⟨?_, good.sound⟩, good.given⟩
      intro others otherEnd left
      rw [(List.suffix_of_suffix_length_le otherEnd isEnd (Nat.le_of_eq left)).eq_of_length left]
      exact good.given

theorem buildRule_builds [DecidableEq Rule] {isKept : Rule → Bool} (sound : EmptyRules body empty)
    (starts : ∀ name, (body name).startsBelow empty level levels (level name) = true)
    (grows : ∀ name, (body name).BranchesGrow empty = true) {depth : Nat} {name : Rule}
    {tokens : List Lexeme} (isEnd : tokens <:+ all)
    (enough : tokens.length * levels + level name < depth) :
    Builds body all (.rule name) tokens (Grammar.buildRule isKept body depth name tokens) := by
  induction depth generalizing name tokens with
  | zero => exact absurd enough (Nat.not_lt_zero _)
  | succ depth induction =>
      have builds := build_builds sound (fun _ _ isEnd enough => induction isEnd enough)
        (starts name)
        (grows name) isEnd (Nat.le_of_lt_succ enough)
      have tried : Builds body all (.rule name) tokens _ := builds.rule
      rw [Grammar.buildRule]
      split
      · exact once_builds isEnd tried
      · exact tried

end

/-! ## The rules of the language -/

namespace Rule

theorem mayBeEmpty_alternatives : EmptyRules alternatives mayBeEmpty := by
  intro name
  cases name <;> decide

theorem startsBelow_alternatives (name : Rule) :
    (alternatives name).startsBelow mayBeEmpty level levels (level name) = true := by
  cases name <;> decide

theorem branchesGrow_alternatives (name : Rule) :
    (alternatives name).BranchesGrow mayBeEmpty = true := by
  cases name <;> decide

end Rule

section

variable {α : Type} {take : Take α} {input : α} {reading : Reading α}

theorem Reads.choice_of_isSome {body : Rule → Grammar Rule} {first second : Grammar Rule}
    (reads : Reads take body first input reading) (fits : reading.isSome) :
    Reads take body (.choice first second) input reading := by
  cases reading with
  | none => cases fits
  | some pair => exact .choiceFirst reads

theorem reads_statementRest
    (reads : Reads take Rule.body (Rule.alternatives .statementRest) input reading) :
    Reads take Rule.body (Rule.body .statementRest) input reading := by
  rcases reads.of_choice with ⟨fits, ends⟩ | ⟨noSemicolon, reads⟩
  · exact ends.choice_of_isSome fits
  refine .choiceSecond noSemicolon ?_
  rcases reads.of_choice with ⟨fits, ends⟩ | ⟨goesOn, parts⟩
  · cases ends with
    | seq block ends =>
        refine .fits block (ends.choice_of_isSome ?_)
        rwa [Reading.after, Option.isSome_map] at fits
    | seqNone => cases fits
  cases parts with
  | seqNone nothing =>
      rcases nothing.of_choice with ⟨⟨⟩, -⟩ | ⟨noBlock, nothing⟩
      exact .fitsNot noBlock (.seqNone nothing)
  | seq part more =>
      rcases part.of_choice with ⟨-, block⟩ | ⟨noBlock, part⟩
      · rcases goesOn.of_seq_none with noBlock | ⟨_, _, otherBlock, goesOn⟩
        · cases block.unique noBlock
        · cases block.unique otherBlock
          exact .fits block (.choiceSecond goesOn more)
      · exact .fitsNot noBlock (.seq part more)

theorem reads_blockItem
    (reads : Reads take Rule.body (Rule.alternatives .blockItem) input reading) :
    Reads take Rule.body (Rule.body .blockItem) input reading := by
  rcases reads.of_choice with ⟨fits, block⟩ | ⟨noBlock, statement⟩
  · exact block.choice_of_isSome fits
  refine .choiceSecond noBlock ?_
  cases statement with
  | branch rest =>
      refine .branch (.rule ?_)
      rcases rest.of_rule.of_choice with ⟨fits, ends⟩ | ⟨noSemicolon, parts⟩
      · exact ends.choice_of_isSome fits
      · cases parts with
        | fits block => cases block.unique noBlock
        | fitsNot _ parts => exact .choiceSecond noSemicolon parts

theorem Reads.of_alternatives {grammar : Grammar Rule}
    (reads : Reads take Rule.alternatives grammar input reading) :
    Reads take Rule.body grammar input reading := by
  induction reads with
  | token => exact .token
  | seq _ _ first second => exact .seq first second
  | seqNone _ first => exact .seqNone first
  | choiceFirst _ first => exact .choiceFirst first
  | choiceSecond _ _ first second => exact .choiceSecond first second
  | fits _ _ first next => exact .fits first next
  | fitsNot _ _ first other => exact .fitsNot first other
  | optional _ part => exact .optional part
  | manyEnd _ part => exact .manyEnd part
  | manyMore _ _ part more => exact .manyMore part more
  | ahead _ part => exact .ahead part
  | notAhead _ part => exact .notAhead part
  | branch _ part => exact .branch part
  | @rule name _ _ _ part =>
      refine .rule ?_
      cases name with
      | blockItem => exact reads_blockItem part
      | statementRest => exact reads_statementRest part
      | _ => exact part

end

theorem buildTokens_given (first : Nat) (tokens : List Lexeme) :
    ∃ place, Given Rule.body place (buildTokens first tokens).ledger.next
      (.rule .compilationUnit) tokens (buildTokens first tokens).result := by
  have none : Ledger.Sound Rule.alternatives tokens (fun _ => 0) ⟨first, []⟩ :=
    fun entry member => absurd member List.not_mem_nil
  have builds : Builds Rule.alternatives tokens (.rule .compilationUnit) tokens
      (Grammar.buildRule Rule.isKept Rule.alternatives
        (callDepth tokens) .compilationUnit tokens) :=
    buildRule_builds Rule.mayBeEmpty_alternatives Rule.startsBelow_alternatives
      Rule.branchesGrow_alternatives (List.suffix_refl tokens) (lt_callDepth tokens)
  rcases builds _ _ none with ⟨place, good⟩
  exact ⟨place, good.given.reads.of_alternatives, good.given.row⟩

theorem parseElements_withoutIds (first : Nat) (text : String) :
    (parseElements first text).map Node.withoutIds = parse text := by
  rcases buildTokens_given first (lexemes text) with ⟨place, given⟩
  have same := given.reads.unique (readTokens_reads (lexemes text))
  rw [parseElements]
  rcases found : (buildTokens first (lexemes text)).result with _ | ⟨nodes, rest⟩
  · rw [found] at same
    rw [parse_of_readTokens_none same.symm]
    rfl
  · rw [found] at same
    rcases parse_of_readTokens same.symm with ⟨root, tree, one, treeSealed, parsed, -⟩
    rcases List.map_eq_singleton_iff.1 one with ⟨node, rfl, rfl⟩
    rw [parsed, ← treeSealed, Node.hoist_withoutIds, Node.sealAgainst_withoutIds]

theorem different_of_parseElements {first : Nat} {text : String} {tree : Node}
    (parsed : parseElements first text = .ok tree) : (tree.preorder.map (·.id)).Nodup := by
  rcases buildTokens_given first (lexemes text) with ⟨place, given⟩
  rw [parseElements] at parsed
  split at parsed
  · next root rest found =>
      have row := (given.row [root] rest found).different
      rw [List.flatMap_singleton, ← Node.numbers_of_sealAgainst parsed, Node.numbers] at row
      refine List.Nodup.of_map NodeId.number ?_
      rwa [List.map_map]
  · cases parsed

end Java

end Verbatim
