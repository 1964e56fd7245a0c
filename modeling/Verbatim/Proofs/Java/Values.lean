import Mathlib.Data.List.Chain
import Verbatim.Proofs.Java.Bodies
import Verbatim.Proofs.Java.Spelling

/-! Values of enumerations in front of blocks. A value without a body of its own may stand
directly in front of an initializer; the braces are tried as the body of the value first, so in
a file that was read no such block could be a body. -/

namespace Verbatim.Java

open Grammar (punctuation identifier keyword separated)

/-! ## Blocks that could be bodies -/

/-- A value of an enumeration that has no body of its own. -/
def IsBare (value : Node) : Prop :=
  value.kind = .enumValue ∧ ∀ child ∈ value.children, child.kind ≠ .block

/-- Tokens like those of the block can be read as the body of a class. -/
def CouldBeBody (block : Node) : Prop :=
  ∃ tokens nodes, (∀ token ∈ tokens, token.Plain) ∧
    tokens.map (·.text) = block.tokens.map Prod.snd ∧
    Reads takeLexeme Rule.body (.rule .classBody) tokens (some (nodes, []))

/-- The second node is no block that could be the body that a value in front of it lacks. -/
def LeavesBlock (value block : Node) : Prop :=
  IsBare value → block.kind = .block → ¬ CouldBeBody block

theorem isBare_bare_iff (value : Node) : IsBare value.bare ↔ IsBare value := by
  rw [IsBare, IsBare, Node.kind_bare, Node.children_bare, List.forall_mem_map]
  simp only [Node.kind_bare]

theorem leavesBlock_bare_iff (value block : Node) :
    LeavesBlock value.bare block.bare ↔ LeavesBlock value block := by
  rw [LeavesBlock, LeavesBlock, isBare_bare_iff, Node.kind_bare, CouldBeBody, CouldBeBody,
    Node.tokens_bare]

theorem everywhere_leavesBlock_of_bare {node other : Node} (same : node.bare = other.bare)
    (leaves : other.Everywhere fun part => part.children.IsChain LeavesBlock) :
    node.Everywhere fun part => part.children.IsChain LeavesBlock := by
  refine Node.everywhere_of_mapHeads_eq (fun part => ?_) same leaves
  show part.bare.children.IsChain LeavesBlock ↔ _
  rw [Node.children_bare, List.isChain_map]
  simp only [leavesBlock_bare_iff]

/-! ## Braces -/

section

variable {region other rest left input : List Lexeme} {nodes others : List Node}

theorem nest_closing {last : Lexeme} (closes : last.shape = (mark "\x7d").shape)
    (behind : List Lexeme) :
    nest bracketPairs (last :: behind) [] = none := by
  have same : last.tokenClass = .punctuation ∧ last.text = "\x7d" := Prod.mk.inj closes
  rw [nest, Lexeme.step, same.1, same.2]
  rfl

theorem not_longer_of_nest {inside inside' behind behind' : List Lexeme} {last : Lexeme}
    (nests : nest bracketPairs inside [] = some [])
    (nests' : nest bracketPairs inside' [] = some [])
    (closes : last.shape = (mark "\x7d").shape)
    (equal : inside ++ last :: behind = inside' ++ behind') : inside'.length ≤ inside.length := by
  rcases List.append_eq_append_iff.1 equal with ⟨more, rfl, same⟩ | ⟨more, rfl, -⟩
  · cases more with
    | nil => simp
    | cons token more =>
        cases (List.cons.inj same).1
        rw [nest_append, nests, Option.bind_some, nest_closing closes] at nests'
        cases nests'
  · simp

theorem Region.append_inj (isRegion : Region bracketPairs "\x7b" "\x7d" region)
    (otherRegion : Region bracketPairs "\x7b" "\x7d" other)
    (equal : region ++ rest = other ++ left) :
    region = other ∧ rest = left := by
  rcases isRegion.parts with ⟨first, inside, last, rfl, -, closes, nests⟩
  rcases otherRegion.parts with ⟨first', inside', last', rfl, -, closes', nests'⟩
  have within : inside ++ last :: rest = inside' ++ last' :: left := by
    simpa using (List.cons.inj equal).2
  have lengths := Nat.le_antisymm (not_longer_of_nest nests' nests closes' within.symm)
    (not_longer_of_nest nests nests' closes within)
  exact List.append_inj equal (by simp [lengths])

theorem classBody_fits
    (reads : Reads takeLexeme Rule.body (.rule .classBody) input (some (nodes, rest))) :
    ∃ region, input = region ++ rest ∧ Region bracketPairs "\x7b" "\x7d" region ∧
      Fits Anything (.rule .classBody) region nodes :=
  fits_of_bracketed rfl stopping_brace rfl reads

theorem couldBeBody_of_reads (plain : ∀ token ∈ input, token.Plain)
    (blockReads : Reads takeLexeme Rule.body (.rule .block) input (some (nodes, rest)))
    (bodyReads : Reads takeLexeme Rule.body (.rule .classBody) input (some (others, left))) :
    ∃ taken, input = taken ++ rest ∧ (∀ token ∈ taken, token.Plain) ∧
      Reads takeLexeme Rule.body (.rule .classBody) taken (some (others, [])) := by
  rcases block_fits blockReads with ⟨region, rfl, isRegion, -⟩
  rcases classBody_fits bodyReads with ⟨other, equal, otherRegion, fits⟩
  rcases isRegion.append_inj otherRegion equal with ⟨rfl, rfl⟩
  have again := fits [] trivial
  rw [List.append_nil] at again
  exact ⟨region, rfl, (List.forall_mem_append.1 plain).1, again⟩

/-! ## Enumerations -/

def Rule.nextValue : Rule.Body := punctuation "," >> .rule .enumValue

def Rule.enumContent : Rule.Body :=
  open? enumValues >> .optional semicolon >> all member

def Rule.bracedEnum : Rule.Body := Grammar.enclosed "\x7b" "\x7d" enumContent

deriving instance DecidableEq for Grammar

theorem Reads.last_of_many {part : Grammar Rule}
    (reads : Reads takeLexeme Rule.body (.many part) input (some (nodes, rest))) :
    (nodes = [] ∧ rest = input) ∨ ∃ place before last, nodes = before ++ last ∧
      Reads takeLexeme Rule.body part place (some (last, rest)) := by
  generalize repetition : Grammar.many part = grammar at reads
  generalize reading : (some (nodes, rest) : Reading (List Lexeme)) = outcome at reads
  induction reads generalizing nodes with
  | manyEnd =>
      cases reading
      exact .inl ⟨rfl, rfl⟩
  | manyMore partReads _ _ more =>
      cases repetition
      rcases Reading.after_eq_some_iff.1 reading.symm with ⟨others, rfl, rfl⟩
      rcases more rfl rfl with ⟨rfl, rfl⟩ | ⟨place, before, last, rfl, lastReads⟩
      · exact .inr ⟨_, [], _, List.append_nil _, partReads⟩
      · exact .inr ⟨place, _, last, (List.append_assoc ..).symm, lastReads⟩
  | _ => cases repetition

theorem exists_lastValue
    (reads : Reads takeLexeme Rule.body (.rule .enumValues) input (some (nodes, rest)))
    {value : Node}
    (last : value ∈ nodes.getLast?) (isValue : value.kind = .enumValue) :
    ∃ place, Reads takeLexeme Rule.body (.rule .enumValue) place (some ([value], rest)) := by
  rcases reads.of_rule.of_seq with ⟨_, behindLast, comma, rfl, separatedReads, commaReads⟩
  rcases separatedReads.of_seq with ⟨firstNodes, behindFirst, moreNodes, rfl, firstReads, moreReads⟩
  rcases commaReads.of_optional with someReads | ⟨-, rfl, rfl⟩
  · rcases someReads.of_token with ⟨token, kind, rfl, accepted, rfl⟩
    rw [List.getLast?_concat, Option.mem_some_iff] at last
    subst last
    have isPunctuation : kind = .punctuation := by
      cases tokenClass : token.tokenClass <;> simp [Wanted.accepts, tokenClass] at accepted
      exact accepted.2.symm
    cases isPunctuation.symm.trans isValue
  · have only {place behind : List Lexeme} {found : List Node}
        (valueReads : Reads takeLexeme Rule.body (.rule .enumValue) place (some (found, behind))) :
        ∃ one, found = [one] := by
      rcases valueReads.of_rule.of_branch with ⟨_, -, equal⟩
      exact ⟨_, equal⟩
    rw [List.append_nil] at last
    rcases Reads.last_of_many moreReads with ⟨rfl, rfl⟩ | ⟨place, before, lastNodes, rfl, nextReads⟩
    · rcases only firstReads with ⟨one, rfl⟩
      cases last
      exact ⟨_, firstReads⟩
    · rcases nextReads.of_seq with ⟨_, between, _, rfl, -, valueReads⟩
      rcases only valueReads with ⟨one, rfl⟩
      rw [← List.append_assoc, ← List.append_assoc, List.getLast?_concat,
        Option.mem_some_iff] at last
      subst last
      exact ⟨between, valueReads⟩

theorem noBody_behind
    (reads : Reads takeLexeme Rule.body (.rule .enumValue) input (some (nodes, rest)))
    {value : Node}
    (member : value ∈ nodes) (bare : IsBare value) : NoBody rest := by
  rcases reads.of_rule.of_branch with ⟨_, partReads, rfl⟩
  rw [List.mem_singleton.1 member] at bare
  rcases partReads.of_seq with ⟨_, _, _, rfl, -, named⟩
  rcases named.of_seq with ⟨_, _, _, rfl, -, behind⟩
  rcases behind.of_seq with ⟨_, beforeBody, _, rfl, -, bodyReads⟩
  rcases bodyReads.of_optional with someReads | ⟨missing, rfl, rfl⟩
  · rcases someReads.of_rule.of_branch with ⟨inside, -, rfl⟩
    exact absurd rfl
      (bare.2 (Grammar.grow .block inside) (by simp [Grammar.grow, Node.withLeading, Node.branch]))
  · exact missing

namespace Rule

def besideValues (rule : Rule) : Bool := rule ≠ enumValues && rule ≠ enumValue

theorem grows_besideValues (name : Rule) (beside : name.besideValues = true) :
    (body name).Grows (· ≠ .enumValue) besideValues = true := by
  revert beside
  cases name <;> decide

theorem grows_values (name : Rule) (values : (!name.besideValues) = true) :
    (body name).Grows (· ≠ .block) (!besideValues ·) = true := by
  revert values
  cases name <;> decide

theorem branches_values (name : Rule) : (body name).Branches (fun _ part =>
    part = bracedEnum || part.Grows (· ≠ .enumValue) besideValues) (fun _ => true) = true := by
  revert name
  decide

end Rule

theorem isChain_of_noBlock (noBlock : ∀ node ∈ nodes, node.kind ≠ .block) :
    nodes.IsChain LeavesBlock := by
  induction nodes with
  | nil => exact .nil
  | cons first nodes induction =>
      rw [List.forall_mem_cons] at noBlock
      refine List.isChain_cons.2 ⟨fun second member _ isBlock => ?_, induction noBlock.2⟩
      exact absurd isBlock (noBlock.2 second (List.mem_of_mem_head? member))

theorem isChain_append_of_noValue (noValue : ∀ node ∈ nodes, node.kind ≠ .enumValue)
    (behind : others.IsChain LeavesBlock) : (nodes ++ others).IsChain LeavesBlock := by
  induction nodes with
  | nil => exact behind
  | cons first nodes induction =>
      rw [List.forall_mem_cons] at noValue
      exact List.isChain_cons.2 ⟨fun _ _ bare => absurd bare.1 noValue.1, induction noValue.2⟩

theorem noValue_of_reads {grammar : Grammar Rule}
    (grows : grammar.Grows (· ≠ .enumValue) Rule.besideValues = true)
    (reads : Reads takeLexeme Rule.body grammar input (some (nodes, rest))) :
    ∀ node ∈ nodes, node.kind ≠ .enumValue := by
  rcases reads.yields rfl with ⟨taken, -, yields⟩
  intro node member isValue
  rcases yields.kinds Rule.grows_besideValues grows node member with isToken | other
  · rw [isValue] at isToken
    cases isToken
  · exact of_decide_eq_true other isValue

theorem noBlock_of_values
    (reads : Reads takeLexeme Rule.body (.optional (.rule .enumValues)) input
      (some (nodes, rest))) :
    ∀ node ∈ nodes, node.kind ≠ .block := by
  rcases reads.yields rfl with ⟨taken, -, yields⟩
  intro node member isBlock
  rcases yields.kinds Rule.grows_values rfl node member with isToken | other
  · rw [isBlock] at isToken
    cases isToken
  · exact of_decide_eq_true other isBlock

/-- A member is a block, or it does not begin like one. -/
theorem member_cases
    (reads : Reads takeLexeme Rule.body (.rule .member) input (some (nodes, rest))) :
    ∃ node, nodes = [node] ∧
      (node.kind ≠ .block ∧ Refuses "\x7b" input ∨
        Reads takeLexeme Rule.body (.rule .block) input (some ([node], rest))) := by
  rcases reads.of_rule.of_choice with ⟨-, classReads⟩ | ⟨-, others⟩
  · have refuses : Refuses "\x7b" input := classReads.refuses_of_takes (by decide) rfl
    rcases classReads.of_rule.of_choice with ⟨-, enumReads⟩ | ⟨-, typeReads⟩
    · rcases enumReads.of_branch with ⟨_, -, rfl⟩
      exact ⟨_, rfl, .inl ⟨nofun, refuses⟩⟩
    · rcases typeReads.of_branch with ⟨_, -, rfl⟩
      exact ⟨_, rfl, .inl ⟨nofun, refuses⟩⟩
  rcases others.of_choice with ⟨-, methodReads⟩ | ⟨-, others⟩
  · have refuses : Refuses "\x7b" input := methodReads.refuses_of_takes (by decide) rfl
    rcases methodReads.of_rule.of_branch with ⟨_, -, rfl⟩
    exact ⟨_, rfl, .inl ⟨nofun, refuses⟩⟩
  rcases others.of_choice with ⟨-, fieldReads⟩ | ⟨-, others⟩
  · have refuses : Refuses "\x7b" input := fieldReads.refuses_of_takes (by decide) rfl
    rcases fieldReads.of_rule.of_branch with ⟨_, -, rfl⟩
    exact ⟨_, rfl, .inl ⟨nofun, refuses⟩⟩
  rcases others.of_choice with ⟨-, initializerReads⟩ | ⟨-, semicolonReads⟩
  · rcases initializerReads.of_rule.of_choice with ⟨-, staticReads⟩ | ⟨-, blockReads⟩
    · have refuses : Refuses "\x7b" input := staticReads.refuses_of_takes (by decide) rfl
      rcases staticReads.of_branch with ⟨_, -, rfl⟩
      exact ⟨_, rfl, .inl ⟨nofun, refuses⟩⟩
    · rcases blockReads.of_rule.of_branch with ⟨_, -, rfl⟩
      exact ⟨_, rfl, .inr blockReads⟩
  · have refuses : Refuses "\x7b" input := semicolonReads.refuses_of_takes (by decide) rfl
    rcases semicolonReads.of_token with ⟨token, kind, rfl, accepted, rfl⟩
    refine ⟨_, rfl, .inl ⟨fun isBlock => ?_, refuses⟩⟩
    have isToken := isToken_of_accepts accepted
    rw [show kind = .block from isBlock] at isToken
    cases isToken

theorem not_couldBeBody (plain : ∀ token ∈ input, token.Plain)
    (noBody : NoBody input) {block : Node}
    (reads : Reads takeLexeme Rule.body (.rule .block) input (some ([block], rest))) :
    ¬ CouldBeBody block := by
  rintro ⟨tokens, others, tokensPlain, texts, bodyReads⟩
  rcases reads.yields rfl with ⟨taken, rfl, yields⟩
  have taken_ := yields.tokens
  rw [List.flatMap_singleton] at taken_
  have same := map_shape_of_texts tokensPlain (List.forall_mem_append.1 plain).1
    (texts.trans taken_)
  rcases bodyReads.transfer takeLexeme_agree_of_shape
    (fun name _ => (Rule.body name).only_anything) rfl same with
    ⟨_, again, ⟨⟩ | ⟨-, nothing⟩⟩
  cases (List.map_eq_nil_iff.1 nothing.symm : _ = [])
  rcases classBody_fits again with ⟨region, equal, -, fits⟩
  rw [List.append_nil] at equal
  subst equal
  cases noBody.unique (fits rest trivial)

/-- What was read behind the values of an enumeration leaves the blocks. -/
theorem isChain_of_bracedEnum (plain : ∀ token ∈ input, token.Plain)
    (reads : Reads takeLexeme Rule.body Rule.bracedEnum input (some (nodes, rest))) :
    nodes.IsChain LeavesBlock := by
  rcases reads.of_seq with ⟨opening, inside, _, rfl, openingReads, behind⟩
  rcases behind.of_seq with ⟨_, _, closing, rfl, contentReads, closingReads⟩
  rcases contentReads.of_seq with ⟨values, behindValues, _, rfl, valuesRead, behindReads⟩
  have others := noValue_of_reads (by decide) (Reads.seq behindReads closingReads)
  refine isChain_append_of_noValue (noValue_of_reads (by decide) openingReads) ?_
  rw [List.append_assoc]
  refine (isChain_of_noBlock (noBlock_of_values valuesRead)).append
    ?_ fun value last block first => ?_
  · rw [← List.append_nil (_ ++ closing)]
    exact isChain_append_of_noValue others .nil
  · intro bare isBlock
    have noBody : NoBody behindValues := by
      rcases valuesRead.of_optional with someReads | ⟨-, rfl, -⟩
      · rcases exists_lastValue someReads last bare.1 with ⟨place, valueReads⟩
        exact noBody_behind valueReads (List.mem_singleton_self value) bare
      · cases last
    have noToken {place place' : List Lexeme} {wanted : Wanted} {found : List Node}
        (reads : Reads takeLexeme Rule.body (.token wanted) place (some (found, place')))
        (head : block ∈ found.head?) : False := by
      rcases reads.of_token with ⟨token, kind, rfl, accepted, rfl⟩
      cases head
      have isToken := isToken_of_accepts accepted
      rw [show kind = .block from isBlock] at isToken
      cases isToken
    rcases behindReads.of_seq with ⟨semicolon, _, members, rfl, semicolonReads, membersRead⟩
    have plainBehind := valuesRead.forall_rest (openingReads.forall_rest plain)
    rcases semicolonReads.of_optional with someReads | ⟨-, rfl, rfl⟩
    · refine (noToken someReads ?_).elim
      rcases someReads.of_token with ⟨token, kind, -, -, rfl⟩
      exact first
    · rcases membersRead.of_many with ⟨-, rfl, rfl⟩ | ⟨_, _, others, rfl, memberReads, -⟩
      · exact (noToken closingReads first).elim
      · rcases member_cases memberReads with ⟨node, rfl, ⟨other, -⟩ | blockReads⟩
        · cases first
          exact absurd isBlock other
        · cases first
          exact not_couldBeBody plainBehind noBody blockReads

theorem leavesBlock_of_reads (plain : ∀ token ∈ input, token.Plain)
    (reads : Reads takeLexeme Rule.body (.rule .compilationUnit) input (some (nodes, rest))) :
    ∀ node ∈ nodes, node.Everywhere fun part => part.children.IsChain LeavesBlock := by
  refine reads.everywhere (fun name _ => Rule.branches_values name) ?_ ?_ rfl rfl plain
  · exact fun _ _ _ => .nil
  · intro kind part input rest nodes allowed plain partReads
    rw [Bool.or_eq_true, decide_eq_true_eq] at allowed
    rcases allowed with rfl | grows
    · exact isChain_of_bracedEnum plain partReads
    · have chain := isChain_append_of_noValue (noValue_of_reads grows partReads) .nil
      rwa [List.append_nil] at chain

theorem leavesBlock_of_parse {text : String} {tree : Node} (parsed : parse text = .ok tree) :
    tree.Everywhere fun part => part.children.IsChain LeavesBlock := by
  rcases reads_of_parse parsed with ⟨root, reads, bare⟩
  exact everywhere_leavesBlock_of_bare bare
    (leavesBlock_of_reads (plain_of_parse parsed) reads root (List.mem_singleton_self root))

end

end Verbatim.Java
