import Verbatim.Proofs.Java.Regions
import Verbatim.Proofs.Java.Shapes
import Verbatim.Proofs.Java.Spelling

/-! Brackets balance. In a file that was read the brackets are well nested, and what a block, a
group or a list of parameters encloses is well nested by itself. The grammar takes brackets in
pairs only, and all other tokens that it takes are none. -/

namespace Verbatim

namespace Node

theorem map_text_leavesBehind {node : Node} (regular : node.Everywhere Regular)
    (fronts : List Trivia) :
    (node.leavesBehind fronts).map (·.text) = (node.tokens.map Prod.snd).map some := by
  induction node using Node.induction generalizing fronts with
  | step node induction =>
      rcases node with ⟨head, children⟩
      rw [tokens_mk]
      cases children with
      | nil =>
          rcases regular.here.leafOrBranch with ⟨-, hasText, -⟩ | ⟨-, -, some⟩
          · rcases Option.isSome_iff_exists.1 hasText with ⟨text, equal⟩
            simp [leavesBehind, show head.text = some text from equal]
          · exact absurd rfl some
      | cons first rest =>
          have noText : head.text = none := regular.here.noText (List.cons_ne_nil _ _)
          have behind : rest.flatMap (fun child => child.leaves.map (·.text)) =
              rest.flatMap fun child => (child.tokens.map Prod.snd).map some :=
            List.flatMap_congr fun child member => induction child (List.mem_cons_of_mem _ member)
              (regular.child (List.mem_cons_of_mem _ member)) []
          rw [leavesBehind_cons, List.map_append, List.map_flatMap, behind,
            induction first List.mem_cons_self (regular.child List.mem_cons_self), noText,
            List.flatMap_cons, Option.map_none, Option.toList_none, List.nil_append,
            List.map_append, List.map_append, List.map_flatMap, List.map_flatMap]

end Node

namespace Java

/-! ## Nested brackets -/

/-- Brackets in their order: every opening one has a closing one of its kind, and pairs do not
cross. -/
inductive Nested : List String → Prop
  | nil : Nested []
  | pair {opening closing : String} {inside behind : List String} :
      (opening, closing) ∈ bracketPairs → Nested inside → Nested behind →
      Nested (opening :: inside ++ closing :: behind)

example : Nested ["(", "[", "]", ")", "\x7b", "\x7d"] :=
  .pair (by decide) (.pair (by decide) .nil .nil) (.pair (by decide) .nil .nil)

theorem plain_mark {text : String} (bracket : isBracket text = true) : (mark text).Plain := by
  have member := List.contains_iff_mem.1 bracket
  simp only [brackets, List.mem_cons, List.not_mem_nil, or_false] at member
  rcases member with rfl | rfl | rfl | rfl | rfl | rfl <;>
    simp [Lexeme.Plain, mark, TokenClass.starts, isPunctuation, isAsciiPunctuation]

theorem punctuation_of_isBracket {token : Lexeme} (plain : token.Plain)
    (bracket : isBracket token.text = true) : token.tokenClass = .punctuation :=
  (Prod.mk.inj (Lexeme.shape_eq_of_text plain (plain_mark bracket) rfl)).1

theorem isBracket_of_paired {opening closing : String}
    (paired : (opening, closing) ∈ bracketPairs) :
    isBracket opening = true ∧ isBracket closing = true := by
  have all : ∀ pair ∈ bracketPairs, isBracket pair.1 = true ∧ isBracket pair.2 = true := by decide
  exact all _ paired

theorem opens_of_step {text : String} {next : List String} (bracket : isBracket text = true)
    (steps : bracketPairs.step text [] = some next) :
    ∃ closing, (text, closing) ∈ bracketPairs ∧ next = [closing] := by
  unfold Pairs.step at steps
  cases opens : bracketPairs.lookup text with
  | some closing =>
      rw [opens] at steps
      rcases List.lookup_eq_some_iff.1 opens with ⟨front, back, equal, -⟩
      exact ⟨closing, equal ▸ by simp, (Option.some.inj steps).symm⟩
  | none =>
      rw [opens] at steps
      simp only at steps
      split at steps
      · cases steps
      next stays =>
        rw [not_isBracket_of_lookup opens stays] at bracket
        cases bracket

/-- Tokens behind which no bracket is open have nested brackets. -/
theorem nested_of_nest {tokens : List Lexeme} (plain : ∀ token ∈ tokens, token.Plain)
    (nests : nest bracketPairs tokens [] = some []) :
    Nested ((tokens.map (·.text)).filter isBracket) := by
  generalize size : tokens.length = length
  induction length using Nat.strongRecOn generalizing tokens with
  | ind length induction =>
      cases tokens with
      | nil => exact .nil
      | cons token rest =>
          rw [List.forall_mem_cons] at plain
          rw [List.length_cons] at size
          rcases Option.bind_eq_some_iff.1 nests with ⟨next, steps, behind⟩
          rw [List.map_cons, List.filter_cons]
          split
          next bracket =>
            rw [Lexeme.step, if_pos (punctuation_of_isBracket plain.1 bracket)] at steps
            rcases opens_of_step bracket steps with ⟨closing, paired, rfl⟩
            rcases @exists_closing bracketPairs rest [] closing behind with
              ⟨inside, last, left, rfl, nestsInside, same, nestsLeft⟩
            rw [List.forall_mem_append, List.forall_mem_cons] at plain
            rw [List.length_append, List.length_cons] at size
            have closes : last.text = closing := (Prod.mk.inj same).2
            rw [List.map_append, List.filter_append, List.map_cons, List.filter_cons, closes,
              if_pos (isBracket_of_paired paired).2]
            exact .pair paired (induction _ (by omega) plain.2.1 nestsInside rfl)
              (induction _ (by omega) plain.2.2.2 nestsLeft rfl)
          next other =>
            have stays : token.step bracketPairs [] = some [] := by
              rw [Lexeme.step]
              split
              · exact Pairs.step_of_not_isBracket (by decide) (Bool.eq_false_iff.2 other) []
              · rfl
            cases steps.symm.trans stays
            exact induction _ (by omega) plain.2 behind rfl

/-! ## Brackets of leaves -/

/-- The bracket that a leaf is, if it is one. -/
def bracket? (leaf : Node.Leaf) : Option String := leaf.text.filter isBracket

/-- The first leaf is a bracket and the last is the one that closes it, and the brackets between
them are nested. -/
def Enclosed (leaves : List Node.Leaf) : Prop :=
  ∃ first inside last opening closing, leaves = first :: (inside ++ [last]) ∧
    first.text = some opening ∧ last.text = some closing ∧ (opening, closing) ∈ bracketPairs ∧
    Nested (inside.filterMap bracket?)

theorem filterMap_bracket? {leaves : List Node.Leaf} {texts : List String}
    (spelled : leaves.map (·.text) = texts.map some) :
    leaves.filterMap bracket? = texts.filter isBracket := by
  calc leaves.filterMap bracket?
      = (leaves.map (·.text)).filterMap (Option.filter isBracket) := (List.filterMap_map ..).symm
    _ = texts.filter isBracket := by
        rw [spelled, List.filterMap_map, ← List.filterMap_eq_filter]
        rfl

theorem enclosed_of_texts {leaves : List Node.Leaf} {opening closing : String}
    {inside : List String}
    (spelled : leaves.map (·.text) = (opening :: (inside ++ [closing])).map some)
    (paired : (opening, closing) ∈ bracketPairs) (nested : Nested (inside.filter isBracket)) :
    Enclosed leaves := by
  rw [List.map_cons, List.map_append, List.map_singleton, List.map_eq_cons_iff] at spelled
  rcases spelled with ⟨first, behind, rfl, isFirst, others⟩
  rcases List.map_eq_append_iff.1 others with ⟨between, ends, rfl, spelledBetween, isLast⟩
  rcases List.map_eq_singleton_iff.1 isLast with ⟨last, rfl, closes⟩
  exact ⟨first, between, last, opening, closing, rfl, isFirst, closes, paired,
    (filterMap_bracket? spelledBetween).symm ▸ nested⟩

theorem punctuation_of_accepts {wanted : Wanted} {token : Lexeme} {kind : Kind}
    (isPunctuation : token.tokenClass = .punctuation)
    (accepted : wanted.accepts token = some kind) :
    kind = .punctuation := by
  cases wanted <;> simp [Wanted.accepts, isPunctuation] at accepted <;> simp [accepted]

/-! ## Brackets in the grammar -/

namespace Rule

def inBrackets (kind : Kind) : Bool := [.block, .group, .parameters].contains kind

theorem not_inBrackets_of_isToken {kind : Kind} (isToken : kind.isToken = true) :
    inBrackets kind = false := by
  cases kind <;> first | rfl | cases isToken

/-- Two brackets of one pair are taken, and between them brackets in pairs only. -/
def encloses : Body → Bool
  | .seq (.token (.punctuation opening)) (.seq inside (.token (.punctuation closing))) =>
    bracketPairs.contains (opening, closing) &&
      (inside.stops peeked bracketPairs (fun _ => false) pairsBrackets pairsBrackets [] false).map
        Prod.fst = some []
  | _ => false

theorem encloses_body (name : Rule) : (body name).Branches
    (fun kind part => !inBrackets kind || encloses part) (fun _ => true) = true := by
  revert name
  decide

theorem of_encloses {part : Body} (encloses_ : encloses part = true) :
    ∃ opening inside closing sure, part = Grammar.enclosed opening closing inside ∧
      (opening, closing) ∈ bracketPairs ∧ inside.stops peeked bracketPairs (fun _ => false)
        pairsBrackets pairsBrackets [] false = some ([], sure) := by
  unfold encloses at encloses_
  split at encloses_
  next opening inside closing =>
    rw [Bool.and_eq_true, decide_eq_true_eq, List.contains_iff_mem,
      Option.map_eq_some_iff] at encloses_
    rcases encloses_ with ⟨paired, ⟨_, sure⟩, stops, rfl⟩
    exact ⟨opening, inside, closing, sure, rfl, paired, stops⟩
  · cases encloses_

end Rule

theorem stopping_nowhere : Stopping Rule.body Rule.peeked bracketPairs (fun _ => false)
    Rule.pairsBrackets Rule.pairsBrackets :=
  ⟨Rule.asks_peeked, Rule.body_pairsBrackets, Rule.body_pairsBrackets⟩

theorem tokens_of_encloses {kind : Kind} {part : Grammar Rule}
    (encloses : Rule.encloses part = true)
    {input rest : List Lexeme} {nodes : List Node} (plain : ∀ token ∈ input, token.Plain)
    (reads : Reads takeLexeme Rule.body part input (some (nodes, rest))) :
    ∃ opening inside closing, (Grammar.grow kind nodes).tokens.map Prod.snd =
      opening :: (inside ++ [closing]) ∧ (opening, closing) ∈ bracketPairs ∧
      Nested (inside.filter isBracket) := by
  rcases Rule.of_encloses encloses with ⟨opening, inside, closing, sure, rfl, paired, stops⟩
  rcases reads.yields rfl with ⟨taken, rfl, yields⟩
  have tokens : (Grammar.grow kind nodes).tokens = nodes.flatMap Node.tokens := Node.tokens_mk ..
  rcases yields.of_seq with ⟨_, _, _, _, rfl, rfl, opens, behind⟩
  rcases behind.of_seq with ⟨between, _, _, _, rfl, rfl, inner, closes⟩
  rcases opens.of_token with ⟨first, _, rfl, -, isOpening⟩
  rcases closes.of_token with ⟨last, _, rfl, -, isClosing⟩
  have opens : first.text = opening := (Prod.mk.inj (shape_of_accepts isOpening)).2
  have closes : last.text = closing := (Prod.mk.inj (shape_of_accepts isClosing)).2
  refine ⟨opening, between.map (·.text), closing, ?_, paired,
    nested_of_nest (fun token member => plain token (by simp [member]))
      (inner.nests stopping_nowhere stops)⟩
  rw [tokens, yields.tokens, List.singleton_append, List.map_cons,
    List.map_append, List.map_singleton, opens, closes]

/-! ## Files -/

section

variable {text : String} {tree : Node} (parsed : parse text = .ok tree)

include parsed

theorem nested_of_parse : Nested (tree.leaves.filterMap bracket?) := by
  have regular := (parse_readFrom parsed).regular
  rcases reads_of_parse parsed with ⟨root, reads, bare⟩
  rcases reads.yields rfl with ⟨taken, all, yields⟩
  rw [List.append_nil] at all
  subst all
  have spelled : tree.leaves.map (·.text) = ((lexemes text).map (·.text)).map some := by
    rw [← yields.tokens, List.flatMap_singleton, ← Node.tokens_bare, ← bare, Node.tokens_bare]
    exact Node.map_text_leavesBehind regular []
  have stops : (Grammar.rule Rule.compilationUnit).stops Rule.peeked bracketPairs (fun _ => false)
      Rule.pairsBrackets Rule.pairsBrackets [] false = some ([], false) := rfl
  rw [filterMap_bracket? spelled]
  exact nested_of_nest (plain_of_parse parsed) (yields.nests stopping_nowhere stops)

theorem punctuation_of_bracket {leaf : Node.Leaf} (member : leaf ∈ tree.leaves)
    (shows : (bracket? leaf).isSome) : leaf.kind = .punctuation := by
  rcases exists_isLeafOf (leaves_of_parse parsed) member with ⟨token, inside, isLeaf⟩
  rcases isLeaf.kind with ⟨wanted, accepted⟩
  rw [bracket?, isLeaf.text, Option.isSome_filter, Option.any_some] at shows
  exact punctuation_of_accepts (punctuation_of_isBracket (plain_of_parse parsed token inside) shows)
    accepted

theorem everywhere_bracketed : tree.Everywhere fun node => Rule.inBrackets node.kind = true →
    ∃ opening inside closing, node.tokens.map Prod.snd = opening :: (inside ++ [closing]) ∧
      (opening, closing) ∈ bracketPairs ∧ Nested (inside.filter isBracket) := by
  rcases reads_of_parse parsed with ⟨root, reads, bare⟩
  refine Node.everywhere_of_mapHeads_eq (fun node => ?_) bare ?_
  · show (Rule.inBrackets node.bare.kind = true → ∃ opening inside closing,
      node.bare.tokens.map Prod.snd = _ ∧ _) ↔ _
    rw [Node.kind_bare, Node.tokens_bare]
  · refine reads.everywhere (fun name _ => Rule.encloses_body name)
      (fun lexeme kind isToken bracketed => ?_)
      (fun allowed plain partReads bracketed => ?_) rfl rfl
      (plain_of_parse parsed) root (List.mem_singleton_self root)
    · exact absurd bracketed (Bool.eq_false_iff.1 (Rule.not_inBrackets_of_isToken isToken))
    next kind part _ _ nodes =>
      have grows : Rule.inBrackets kind = true := bracketed
      rw [grows, Bool.not_true, Bool.false_or] at allowed
      exact tokens_of_encloses allowed plain partReads

theorem enclosed_of_parse {node : Node} (member : node ∈ tree.preorder)
    (bracketed : Rule.inBrackets node.kind = true) : Enclosed node.leaves := by
  have regular := (parse_readFrom parsed).regular
  rcases everywhere_bracketed parsed node member bracketed with
    ⟨opening, inside, closing, tokens, paired, nested⟩
  refine enclosed_of_texts ?_ paired nested
  rw [← tokens]
  exact Node.map_text_leavesBehind (regular.below member) []

end

/-- In a file that was read the brackets are nested, only punctuation is a bracket, and every block,
every group and every list of parameters stands in brackets. -/
theorem brackets_balance {text : String} {tree : Node} (parsed : parse text = .ok tree) :
    Nested (tree.leaves.filterMap bracket?) ∧
      (∀ leaf ∈ tree.leaves, (bracket? leaf).isSome → leaf.kind = .punctuation) ∧
      ∀ node ∈ tree.preorder, node.kind ∈ [.block, .group, .parameters] →
        Enclosed node.leaves :=
  ⟨nested_of_parse parsed, fun _ => punctuation_of_bracket parsed,
    fun _ member kind => enclosed_of_parse parsed member (List.contains_iff_mem.2 kind)⟩

/-- A method with a call and an array. -/
theorem brackets_balance_of_call : ∃ tree,
    parse "class A\x7bvoid f()\x7bg(x[0]);\x7d\x7d" = .ok tree ∧
      tree.leaves.filterMap bracket? =
        ["\x7b", "(", ")", "\x7b", "(", "[", "]", ")", "\x7d", "\x7d"] ∧
      Nested (tree.leaves.filterMap bracket?) ∧
      ∀ node ∈ tree.preorder, node.kind ∈ [.block, .group, .parameters] →
        Enclosed node.leaves := by
  have evaluated : (parse "class A\x7bvoid f()\x7bg(x[0]);\x7d\x7d").toOption.map
      (fun tree => tree.leaves.filterMap bracket?) =
        some ["\x7b", "(", ")", "\x7b", "(", "[", "]", ")", "\x7d", "\x7d"] := by decide +kernel
  cases parsed : parse "class A\x7bvoid f()\x7bg(x[0]);\x7d\x7d" with
  | error refused =>
      rw [parsed] at evaluated
      cases evaluated
  | ok tree =>
      rw [parsed] at evaluated
      rcases brackets_balance parsed with ⟨nested, -, enclosed⟩
      exact ⟨tree, rfl, Option.some.inj evaluated, nested, enclosed⟩

end Java

end Verbatim
