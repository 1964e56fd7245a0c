import Verbatim.Proofs.Java.Firsts
import Verbatim.Proofs.Java.Nesting

/-! Where the rules of the language stop. Groups, blocks and type arguments are read the same
whatever stands behind them, and signatures and values are read the same up to the mark that
ends them. -/

namespace Verbatim.Java

open Grammar (enclosed punctuation)

/-! ## Marks -/

/-- A punctuation mark, wherever it stands. -/
def mark (text : String) : Lexeme := ⟨.empty, .punctuation, text, 0, 0, .none, .none⟩

def shownBy (text : String) (wanted : Wanted) : Bool := (wanted.accepts (mark text)).isSome

theorem shows_of_shape {text : String} {token : Lexeme} (same : token.shape = (mark text).shape)
    (rest : List Lexeme) : Shows (shownBy text) (token :: rest) := by
  intro wanted
  rw [takeLexeme, Option.isSome_map, accepts_of_shape same, shownBy]

theorem shape_of_accepts {text : String} {token : Lexeme} {kind : Kind}
    (accepted : (Wanted.punctuation text).accepts token = some kind) :
    token.shape = (mark text).shape := by
  cases tokenClass : token.tokenClass <;>
    simp_all [Wanted.accepts, Lexeme.shape, mark]

theorem accepts_of_mark {text : String} {token : Lexeme} (same : token.shape = (mark text).shape) :
    (Wanted.punctuation text).accepts token = some .punctuation := by
  rw [accepts_of_shape same]
  simp [Wanted.accepts, mark]

theorem takeLexeme_of_shown {text : String} {wanted : Wanted} {input : List Lexeme}
    (shows : Shows (shownBy text) input) (other : shownBy text wanted = false) :
    takeLexeme wanted input = none := by
  rw [← Option.isNone_iff_eq_none, ← Option.isSome_eq_false_iff, shows, other]

def bracketPairs : Pairs := [("(", ")"), ("[", "]"), ("\x7b", "\x7d")]

def anglePairs : Pairs := [("<", ">")]

/-! ## Rules that stop -/

namespace Rule

/-- The tokens that continue a statement behind a block. -/
def peeked : Rule → List Wanted
  | statementContinues =>
    [.keyword "else", .keyword "catch", .keyword "finally", .keyword "while", .punctuation ";",
      .punctuation ",", .punctuation ".", .punctuation ")"]
  | _ => []

/-- What only looks at a token may look at a bracket alone. -/
def pairsBrackets (rule : Rule) : Bool := rule ≠ statementContinues

def inGroups : Rule → Bool
  | group | parenGroup | groupItem => true
  | _ => false

/-- Types and what stands with them in signatures. -/
def inSignatures : Rule → Bool
  | supertypes | throws | typeRef | typeBase | dimensions | qualifiedName | typeArguments
  | typeArgument | typeParameters | typeParameter | typeBound | importName | classKeyword => true
  | _ => false

def inValues (rule : Rule) : Bool :=
  rule.inSignatures || rule.inGroups && rule ≠ groupItem ||
    [declarator, expression, expressionItem, defaultValue].contains rule

theorem asks_peeked (name : Rule) (some : name.peeked ≠ []) :
    (body name).alternatives = .some name.peeked := by
  cases name <;> first | rfl | exact absurd rfl some

theorem body_pairsBrackets (name : Rule) (paired : name.pairsBrackets = true) :
    ((body name).stops peeked bracketPairs (fun _ => false) pairsBrackets pairsBrackets
      [] false).map
      Prod.fst = some [] := by
  revert name
  decide

end Rule

theorem stopping_brackets {text : String} {outer : Rule → Bool}
    (stops : ∀ name, outer name = true →
      ((Rule.body name).stops Rule.peeked bracketPairs (shownBy text) outer Rule.pairsBrackets []
        false).map Prod.fst = some []) :
    Stopping Rule.body Rule.peeked bracketPairs (shownBy text) outer Rule.pairsBrackets :=
  ⟨Rule.asks_peeked, stops, Rule.body_pairsBrackets⟩

theorem stopping_brace :
    Stopping Rule.body Rule.peeked bracketPairs (shownBy "\x7d") Rule.pairsBrackets
      Rule.pairsBrackets := by
  apply stopping_brackets
  decide

theorem stopping_group {closing : String} (isClosing : closing ∈ [")", "]", "\x7d"]) :
    Stopping Rule.body Rule.peeked bracketPairs (shownBy closing) Rule.inGroups
      Rule.pairsBrackets := by
  apply stopping_brackets
  simp only [List.mem_cons, List.not_mem_nil, or_false] at isClosing
  rcases isClosing with rfl | rfl | rfl <;> decide

theorem stopping_signature {text : String} (ends : text ∈ ["(", "\x7b", ";"]) :
    Stopping Rule.body Rule.peeked bracketPairs (shownBy text) Rule.inSignatures
      Rule.pairsBrackets := by
  apply stopping_brackets
  simp only [List.mem_cons, List.not_mem_nil, or_false] at ends
  rcases ends with rfl | rfl | rfl <;> decide

theorem stopping_value :
    Stopping Rule.body Rule.peeked bracketPairs (shownBy ";") Rule.inValues Rule.pairsBrackets := by
  apply stopping_brackets
  decide

theorem stopping_angle :
    Stopping Rule.body Rule.peeked anglePairs (shownBy ">") Rule.inSignatures
      Rule.inSignatures := by
  constructor
  · exact Rule.asks_peeked
  · decide
  · decide

/-! ## What is in brackets -/

/-- A grammar reads these tokens so, whatever stands behind them as long as it is of a kind. -/
def Fits (next : List Lexeme → Prop) (grammar : Grammar Rule) (taken : List Lexeme)
    (nodes : List Node) : Prop :=
  ∀ rest, next rest → Reads takeLexeme Rule.body grammar (taken ++ rest) (some (nodes, rest))

def Anything (_ : List Lexeme) : Prop := True

/-- Two brackets that belong together with what is between them. -/
structure Region (pairs : Pairs) (opening closing : String) (region : List Lexeme) : Prop where
  parts : ∃ first inside last, region = first :: (inside ++ [last]) ∧
    first.shape = (mark opening).shape ∧ last.shape = (mark closing).shape ∧
    nest pairs inside [] = some []

section

variable {pairs : Pairs} {outer inner : Rule → Bool} {opening closing : String}
  {part : Grammar Rule} {sure : Bool}

theorem fits_of_closed
    (stopping : Stopping Rule.body Rule.peeked pairs (shownBy closing) outer inner)
    (stops : part.stops Rule.peeked pairs (shownBy closing) outer inner [] false = some ([], sure))
    {input rest : List Lexeme} {nodes : List Node}
    (reads : Reads takeLexeme Rule.body (.seq part (punctuation closing)) input
      (some (nodes, rest))) :
    ∃ inside last, input = inside ++ last :: rest ∧ last.shape = (mark closing).shape ∧
      nest pairs inside [] = some [] ∧
      Fits Anything (.seq part (punctuation closing)) (inside ++ [last]) nodes := by
  rcases reads.of_seq with ⟨partNodes, _, _, rfl, partReads, closingReads⟩
  rcases closingReads.of_token with ⟨last, kind, rfl, closes, rfl⟩
  have lastShape := shape_of_accepts closes
  rcases partReads.inFrontOf stopping stops [] rfl rfl (shows_of_shape lastShape rest) with
    ⟨inside, rfl, nests, same⟩
  refine ⟨inside, last, rfl, lastShape, nests, fun other _ => ?_⟩
  have again := same (last :: other) (shows_of_shape lastShape other)
  rw [List.nil_append] at again
  rw [List.append_assoc]
  exact .seq again (.token_of_accepts closes other)

theorem fits_of_enclosed
    (stopping : Stopping Rule.body Rule.peeked pairs (shownBy closing) outer inner)
    (stops : part.stops Rule.peeked pairs (shownBy closing) outer inner [] false = some ([], sure))
    {input rest : List Lexeme} {nodes : List Node}
    (reads : Reads takeLexeme Rule.body (enclosed opening closing part) input
      (some (nodes, rest))) :
    ∃ region, input = region ++ rest ∧ Region pairs opening closing region ∧
      Fits Anything (enclosed opening closing part) region nodes := by
  rcases reads.of_seq with ⟨_, _, _, rfl, openingReads, behind⟩
  rcases openingReads.of_token with ⟨first, kind, rfl, opens, rfl⟩
  rcases fits_of_closed stopping stops behind with ⟨inside, last, rfl, lastShape, nests, fits⟩
  refine ⟨first :: (inside ++ [last]), by simp, ⟨first, inside, last, rfl, shape_of_accepts opens,
    lastShape, nests⟩, fun other any => ?_⟩
  exact .seq (.token_of_accepts opens _) (fits other any)

theorem fits_of_marked
    (stopping : Stopping Rule.body Rule.peeked pairs (shownBy closing) outer inner)
    (stops : part.stops Rule.peeked pairs (shownBy closing) outer inner [] false = some ([], sure))
    {input rest : List Lexeme} {nodes : List Node}
    (reads : Reads takeLexeme Rule.body part input (some (nodes, rest)))
    (shows : Shows (shownBy closing) rest) :
    ∃ taken, input = taken ++ rest ∧ Fits (Shows (shownBy closing)) part taken nodes := by
  rcases reads.inFrontOf stopping stops [] rfl rfl shows with ⟨taken, rfl, -, same⟩
  exact ⟨taken, rfl, same⟩

/-- What does not fit into brackets does not whatever stands behind them. -/
theorem none_of_enclosed {outside within : String} {region : List Lexeme}
    (isRegion : Region pairs opening closing region)
    (stopping : Stopping Rule.body Rule.peeked pairs (shownBy closing) outer inner)
    (stops : part.stops Rule.peeked pairs (shownBy closing) outer inner [] false = some ([], sure))
    {rest : List Lexeme}
    (reads : Reads takeLexeme Rule.body (enclosed outside within part) (region ++ rest) none)
    (other : List Lexeme) :
    Reads takeLexeme Rule.body (enclosed outside within part) (region ++ other) none := by
  rcases isRegion.parts with ⟨first, inside, last, rfl, -, lastShape, nests⟩
  rw [List.cons_append, List.append_assoc, List.singleton_append] at reads ⊢
  rcases reads.of_seq_none with openingNone | ⟨_, _, openingReads, behind⟩
  · have missing := takeLexeme_cons_eq_none.1 openingNone.of_token_none
    exact .seqNone (.token_of_none (takeLexeme_cons_eq_none.2 missing))
  · rcases openingReads.of_token with ⟨_, kind, equal, opens, rfl⟩
    cases equal
    refine .seq_none (.token_of_accepts opens _) ?_
    have related : UpToMark pairs (last :: rest) (last :: other) [] false
        (inside ++ last :: rest) (inside ++ last :: other) :=
      ⟨inside, nests, fun never => absurd never Bool.false_ne_true, rfl, rfl⟩
    have here := shows_of_shape lastShape rest
    have there := shows_of_shape lastShape other
    rcases behind.of_seq_none with partNone | ⟨_, _, partReads, closingNone⟩
    · rcases partNone.upToMark stopping here there stops related with ⟨_, again, ⟨⟩⟩
      exact .seqNone again
    · rcases partReads.upToMark stopping here there stops related with
        ⟨_, again, ⟨⟩ | ⟨-, shared, -, -, rfl, rfl⟩⟩
      -- the next token is the same on both sides
      refine .seq_none again (.token_of_none ?_)
      have missing := closingNone.of_token_none
      cases shared with
      | nil =>
          rw [List.nil_append, takeLexeme_cons_eq_none] at missing ⊢
          exact missing
      | cons token left =>
          rw [List.cons_append, takeLexeme_cons_eq_none] at missing ⊢
          exact missing

end

/-! ## The rules that are in brackets -/

section

variable {input rest : List Lexeme} {nodes : List Node}

theorem fits_of_bracketed {name : Rule} {kind : Kind} {pairs : Pairs} {outer inner : Rule → Bool}
    {opening closing : String} {part : Grammar Rule} {sure : Bool}
    (is : Rule.body name = .branch kind (enclosed opening closing part))
    (stopping : Stopping Rule.body Rule.peeked pairs (shownBy closing) outer inner)
    (stops : part.stops Rule.peeked pairs (shownBy closing) outer inner [] false = some ([], sure))
    (reads : Reads takeLexeme Rule.body (.rule name) input (some (nodes, rest))) :
    ∃ region, input = region ++ rest ∧ Region pairs opening closing region ∧
      Fits Anything (.rule name) region nodes := by
  have bodyReads := reads.of_rule
  rw [is] at bodyReads
  rcases bodyReads.of_branch with ⟨inside, partReads, rfl⟩
  rcases fits_of_enclosed stopping stops partReads with ⟨region, equal, isRegion, fits⟩
  refine ⟨region, equal, isRegion, fun other any => .rule ?_⟩
  rw [is]
  exact .branch (fits other any)

theorem parenGroup_fits
    (reads : Reads takeLexeme Rule.body (.rule .parenGroup) input (some (nodes, rest))) :
    ∃ region, input = region ++ rest ∧ Region bracketPairs "(" ")" region ∧
      Fits Anything (.rule .parenGroup) region nodes :=
  fits_of_bracketed rfl (stopping_group (by decide)) rfl reads

theorem block_fits
    (reads : Reads takeLexeme Rule.body (.rule .block) input (some (nodes, rest))) :
    ∃ region, input = region ++ rest ∧ Region bracketPairs "\x7b" "\x7d" region ∧
      Fits Anything (.rule .block) region nodes :=
  fits_of_bracketed rfl stopping_brace rfl reads

theorem typeArguments_fits
    (reads : Reads takeLexeme Rule.body (.rule .typeArguments) input (some (nodes, rest))) :
    ∃ region, input = region ++ rest ∧ Region anglePairs "<" ">" region ∧
      Fits Anything (.rule .typeArguments) region nodes :=
  fits_of_bracketed rfl stopping_angle rfl reads

theorem classBody_none {region : List Lexeme} (isRegion : Region bracketPairs "\x7b" "\x7d" region)
    (reads : Reads takeLexeme Rule.body (.rule .classBody) (region ++ rest) none)
    (other : List Lexeme) :
    Reads takeLexeme Rule.body (.rule .classBody) (region ++ other) none := by
  have partReads := reads.of_rule.of_branch_none
  exact .rule (.branch (none_of_enclosed isRegion stopping_brace rfl partReads other))

end

/-! ## Blocks are groups -/

/-- The token that closes an open bracket, with what is in front of it and behind it. -/
theorem exists_closing {pairs : Pairs} {tokens : List Lexeme}
    {stack : List String} {closing : String}
    (nests : nest pairs tokens (stack ++ [closing]) = some []) :
    ∃ inside last behind, tokens = inside ++ last :: behind ∧ nest pairs inside stack = some [] ∧
      last.shape = (mark closing).shape ∧ nest pairs behind [] = some [] := by
  induction tokens generalizing stack with
  | nil =>
      rw [nest, Option.some.injEq] at nests
      exact absurd nests (by simp)
  | cons token rest induction =>
      rcases Option.bind_eq_some_iff.1 nests with ⟨next, steps, behind⟩
      have step : (∃ other, token.step pairs stack = some other ∧ next = other ++ [closing]) ∨
          (stack = [] ∧ next = [] ∧ token.shape = (mark closing).shape) := by
        rw [Lexeme.step] at steps ⊢
        split at steps
        next isPunctuation =>
          rw [if_pos isPunctuation]
          unfold Pairs.step at steps ⊢
          cases opens : pairs.lookup token.text with
          | some inner =>
              rw [opens] at steps
              cases steps
              exact .inl ⟨_, rfl, rfl⟩
          | none =>
              rw [opens] at steps
              simp only at steps ⊢
              split at steps
              next closes =>
                rw [if_pos closes]
                cases stack with
                | nil =>
                    simp only [List.nil_append, Option.ite_none_right_eq_some] at steps
                    rcases steps with ⟨same, ⟨⟩⟩
                    exact .inr ⟨rfl, rfl, by simp [Lexeme.shape, mark, isPunctuation, same]⟩
                | cons top left =>
                    simp only [List.cons_append, Option.ite_none_right_eq_some] at steps
                    rcases steps with ⟨same, ⟨⟩⟩
                    exact .inl ⟨left, by simp [same], rfl⟩
              next stays =>
                rw [if_neg stays]
                cases steps
                exact .inl ⟨stack, rfl, rfl⟩
        next otherClass =>
          rw [if_neg otherClass]
          cases steps
          exact .inl ⟨stack, rfl, rfl⟩
      rcases step with ⟨other, own, rfl⟩ | ⟨rfl, rfl, same⟩
      · rcases induction behind with ⟨inside, last, left, rfl, nestsInside, same, nestsLeft⟩
        exact ⟨token :: inside, last, left, rfl, by rw [nest, own]; exact nestsInside, same,
          nestsLeft⟩
      · exact ⟨[], token, rest, rfl, rfl, same, behind⟩

theorem groupItem_none {closing : String} (isClosing : closing ∈ [")", "]", "\x7d"]) {last : Lexeme}
    (same : last.shape = (mark closing).shape) (rest : List Lexeme) :
    Reads takeLexeme Rule.body (.rule .groupItem) (last :: rest) none := by
  refine Rule.none_of_refuses (fun wanted starts => ?_) rfl
  refine takeLexeme_of_shown (shows_of_shape same rest) ?_
  simp only [List.mem_cons, List.not_mem_nil, or_false] at isClosing
  revert starts wanted
  rcases isClosing with rfl | rfl | rfl <;> decide

theorem not_isBracket_of_lookup {text : String} (opens : bracketPairs.lookup text = none)
    (closes : ¬ (bracketPairs.any fun pair => pair.2 = text) = true) : isBracket text = false := by
  cases inside : isBracket text with
  | false => rfl
  | true =>
      have member := List.contains_iff_mem.1 inside
      simp only [brackets, List.mem_cons, List.not_mem_nil, or_false] at member
      rcases member with same | same | same | same | same | same <;> rw [same] at opens closes <;>
        revert opens closes <;> decide

theorem exists_group {opening closing : String} (paired : (opening, closing) ∈ bracketPairs)
    {first last : Lexeme} {inside rest : List Lexeme} {nodes : List Node}
    (opens : first.shape = (mark opening).shape) (closes : last.shape = (mark closing).shape)
    (items : Reads takeLexeme Rule.body (.many (.rule .groupItem)) (inside ++ last :: rest)
      (some (nodes, last :: rest))) :
    ∃ node, Reads takeLexeme Rule.body (.rule .group) (first :: (inside ++ last :: rest))
      (some ([node], rest)) := by
  have bracketed : Reads takeLexeme Rule.body (Rule.bracketed opening closing)
      (first :: (inside ++ last :: rest)) _ :=
    .branch (.seq (.token_of_accepts (accepts_of_mark opens) _)
      (.seq items (.token_of_accepts (accepts_of_mark closes) rest)))
  have others : ∀ {text : String} {part : Grammar Rule} {kind : Kind}, opening ≠ text →
      Reads takeLexeme Rule.body (.branch kind (.seq (.token (.punctuation text)) part))
        (first :: (inside ++ last :: rest)) none := by
    intro text part kind different
    refine .branch (.seqNone (.token_of_none ?_))
    rw [takeLexeme_cons_eq_none, accepts_of_shape opens]
    exact if_neg different
  simp only [bracketPairs, List.mem_cons, Prod.mk.injEq, List.not_mem_nil, or_false] at paired
  rcases paired with ⟨rfl, rfl⟩ | ⟨rfl, rfl⟩ | ⟨rfl, rfl⟩
  · exact ⟨_, .rule (.choiceFirst (.rule bracketed))⟩
  · exact ⟨_, .rule (.choiceSecond (.rule (others (by decide))) (.choiceFirst bracketed))⟩
  · exact ⟨_, .rule (.choiceSecond (.rule (others (by decide)))
      (.choiceSecond (others (by decide)) bracketed))⟩

/-- Tokens between which all brackets belong together can be read one by one in a group. -/
theorem exists_groupItems {tokens : List Lexeme} (nests : nest bracketPairs tokens [] = some [])
    (real : ∀ token ∈ tokens, token.tokenClass ≠ .endOfText ∧ token.tokenClass ≠ .stray)
    {rest : List Lexeme} (ends : Reads takeLexeme Rule.body (.rule .groupItem) rest none) :
    ∃ nodes, Reads takeLexeme Rule.body (.many (.rule .groupItem)) (tokens ++ rest)
      (some (nodes, rest)) := by
  -- on the number of tokens: a bracket is read with all that it closes, and then what is behind it
  induction size : tokens.length using Nat.strongRecOn generalizing tokens rest with
  | ind size induction =>
    subst size
    cases tokens with
    | nil => exact ⟨[], .manyEnd ends⟩
    | cons token others =>
        rcases Option.bind_eq_some_iff.1 nests with ⟨stack, steps, behind⟩
        rw [List.forall_mem_cons] at real
        have plainly (accepted : (Wanted.plain.accepts token).isSome) (same : stack = []) :
            ∃ nodes, Reads takeLexeme Rule.body (.many (.rule .groupItem)) (token :: others ++ rest)
              (some (nodes, rest)) := by
          subst same
          rcases Option.isSome_iff_exists.1 accepted with ⟨kind, accepts⟩
          rcases induction others.length (by simp) behind real.2 ends rfl with ⟨nodes, more⟩
          have noGroup : Reads takeLexeme Rule.body (.rule .group)
              (token :: (others ++ rest)) none := by
            refine Rule.none_of_refuses (fun wanted starts => ?_) rfl
            rw [takeLexeme_cons_eq_none]
            refine Wanted.accepts_eq_none_of_apart ?_ accepted
            revert starts wanted
            decide
          exact ⟨_, .manyMore (.rule (.choiceSecond noGroup (.token_of_accepts accepts _))) more⟩
        rw [Lexeme.step] at steps
        split at steps
        next isPunctuation =>
          unfold Pairs.step at steps
          cases opens : bracketPairs.lookup token.text with
          | none =>
              rw [opens] at steps
              simp only at steps
              split at steps
              · cases steps
              next stays =>
                cases steps
                refine plainly ?_ rfl
                simp [Wanted.accepts, isPunctuation, not_isBracket_of_lookup opens stays]
          | some closing =>
              rw [opens] at steps
              cases steps
              have paired : (token.text, closing) ∈ bracketPairs := by
                rw [List.lookup_eq_some_iff] at opens
                rcases opens with ⟨before, _, equal, -⟩
                rw [equal]
                simp
              rcases exists_closing (show nest _ _ ([] ++ [closing]) = _ from behind) with
                ⟨inside, last, left, rfl, nestsInside, same, nestsLeft⟩
              have isClosing : closing ∈ [")", "]", "\x7d"] :=
                List.mem_map_of_mem (f := Prod.snd) paired
              rcases induction inside.length (by simp +arith) nestsInside
                (fun token member => real.2 token (by simp [member]))
                (groupItem_none isClosing same (left ++ rest)) rfl with ⟨items, itemsRead⟩
              rcases induction left.length (by simp +arith) nestsLeft
                (fun token member => real.2 token (by simp [member])) ends rfl with ⟨nodes, more⟩
              have opening : token.shape = (mark token.text).shape := by
                rw [Lexeme.shape, isPunctuation]
                rfl
              rcases exists_group paired opening same itemsRead with ⟨node, groupReads⟩
              refine ⟨[node] ++ nodes, ?_⟩
              rw [List.cons_append, List.append_assoc, List.cons_append]
              exact .manyMore (.rule (.choiceFirst groupReads)) more
        next otherClass =>
          cases steps
          refine plainly ?_ rfl
          cases tokenClass : token.tokenClass <;> simp_all [Wanted.accepts]

theorem real_of_reads {name : Rule} (inside : name ≠ .compilationUnit) {input rest : List Lexeme}
    {nodes : List Node}
    (reads : Reads takeLexeme Rule.body (.rule name) input (some (nodes, rest))) :
    ∃ taken, input = taken ++ rest ∧
      ∀ token ∈ taken, token.tokenClass ≠ .endOfText ∧ token.tokenClass ≠ .stray := by
  rcases reads.yields rfl with ⟨taken, rfl, yields⟩
  have closed : ∀ name, decide (name ≠ Rule.compilationUnit) = true →
      (Rule.body name).Only (fun wanted => wanted ≠ .endOfText)
      (fun name => name ≠ .compilationUnit) =
        true := by
    intro name
    cases name <;> decide
  refine ⟨taken, rfl, fun token member => ?_⟩
  rcases yields.accepted closed (decide_eq_true inside) token member with ⟨wanted, real, accepted⟩
  constructor <;> intro tokenClass <;>
    cases wanted <;> simp_all [Wanted.accepts]

theorem exists_expressionItem {input rest : List Lexeme} {nodes : List Node}
    (reads : Reads takeLexeme Rule.body (.rule .block) input (some (nodes, rest))) :
    ∃ items, Reads takeLexeme Rule.body (.rule .expressionItem) input (some (items, rest)) := by
  rcases block_fits reads with ⟨region, rfl, isRegion, -⟩
  rcases isRegion.parts with ⟨first, inside, last, rfl, opens, closes, nests⟩
  rcases real_of_reads (by decide) reads with ⟨taken, equal, real⟩
  rw [← List.append_cancel_right equal] at real
  rcases exists_groupItems nests (fun token member => real token (by simp [member]))
    (groupItem_none (by decide) closes rest) with ⟨items, itemsRead⟩
  rcases exists_group (by decide) opens closes itemsRead with ⟨node, groupReads⟩
  have noKeyword : takeLexeme (.keyword "new") (first :: (inside ++ last :: rest)) = none :=
    groupReads.refuses_of_takes (by decide) rfl
  refine ⟨[node], ?_⟩
  rw [List.cons_append, List.append_assoc]
  exact .rule (.choiceSecond (.seqNone (.token_of_none noKeyword)) (.choiceFirst groupReads))

end Verbatim.Java
