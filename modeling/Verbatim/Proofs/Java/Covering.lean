import Mathlib.Data.List.Forall2
import Verbatim.Proofs.Java.Running
import Verbatim.Proofs.Java.Tokens
import Verbatim.Proofs.Tree.Hoisting

/-! What the nodes of a reading are made of: one leaf for every token that was taken, in their
order, and above the leaves nodes that hold others. -/

namespace Verbatim

namespace Java

/-! ## Tokens and leaves -/

/-- The leaf of a token: its trivia in front, if there is any, and its text, and a kind that the
token may have. -/
structure IsLeafOf (lexeme : Lexeme) (leaf : Node.Leaf) : Prop where
  fronts : leaf.fronts = [lexeme.leading].filter fun trivia => !trivia.isEmpty
  text : leaf.text = some lexeme.text
  kind : ∃ wanted : Wanted, wanted.accepts lexeme = some leaf.kind

namespace Grammar

variable {Rule : Type}

/-- Nodes grow from one part or more, and are of kinds that may have children. -/
def BranchesGrow (empty : Rule → Bool) : Grammar Rule → Bool
  | .token _ | .rule _ => true
  | .seq first second | .choice first second =>
    first.BranchesGrow empty && second.BranchesGrow empty
  | .ifFits first next other =>
    first.BranchesGrow empty && next.BranchesGrow empty && other.BranchesGrow empty
  | .optional part | .many part | .ahead part | .notAhead part => part.BranchesGrow empty
  | .branch kind part =>
    !kind.isToken && !part.mayTakeNothing empty && part.BranchesGrow empty

end Grammar

/-- The nodes cover the tokens. -/
structure Covers (taken : List Lexeme) (nodes : List Node) : Prop where
  leaves : List.Forall₂ IsLeafOf taken (nodes.flatMap Node.leaves)
  written : (Node.writtenOfAll nodes) = String.join (taken.map Lexeme.written)
  nothing : nodes = [] → taken = []
  regular : ∀ node ∈ nodes, node.Everywhere Node.Regular
  formatted : ∀ node ∈ nodes, node.Everywhere Node.Formatted

theorem isToken_wordKind (word : String) : (wordKind word).isToken = true := by
  rw [wordKind]
  split
  · rfl
  · split <;> rfl

theorem isToken_of_accepts {wanted : Wanted} {lexeme : Lexeme} {kind : Kind}
    (accepted : wanted.accepts lexeme = some kind) : kind.isToken = true := by
  have decided : (wanted.accepts lexeme).all Kind.isToken = true := by
    cases tokenClass : lexeme.tokenClass <;> cases wanted <;>
      simp only [Wanted.accepts, tokenClass, Option.all_none, Option.all_some, isToken_wordKind] <;>
      first | rfl | (split <;> rfl)
  rw [accepted] at decided
  exact decided

theorem Covers.token {wanted : Wanted} {lexeme : Lexeme} {kind : Kind}
    (accepted : wanted.accepts lexeme = some kind) : Covers [lexeme] [lexeme.node kind] := by
  have only : ∀ property : Node → Prop, property (lexeme.node kind) →
      ∀ node ∈ [lexeme.node kind], node.Everywhere property := by
    intro property holds node member
    rw [List.mem_singleton.1 member, Node.everywhere_iff]
    exact ⟨holds, fun child inside => absurd inside List.not_mem_nil⟩
  constructor
  · exact .cons ⟨rfl, rfl, wanted, accepted⟩ .nil
  · simp [Lexeme.node, Lexeme.written, Node.token, Node.withLeading, Node.writtenOfAll,
      Node.written, String.join_cons, String.join_nil, Trivia.text_empty]
  · intro absent
    cases absent
  · exact only _ ⟨rfl, .inl ⟨isToken_of_accepts accepted, rfl, rfl⟩⟩
  · exact only Node.Formatted rfl

theorem Covers.nil : Covers [] [] := by
  constructor
  · exact .nil
  · simp [Node.writtenOfAll, String.join_nil]
  · exact fun _ => rfl
  · simp
  · simp

theorem Covers.append {taken more : List Lexeme} {nodes others : List Node}
    (covers : Covers taken nodes) (next : Covers more others) :
    Covers (taken ++ more) (nodes ++ others) := by
  constructor
  · rw [List.flatMap_append]
    exact List.rel_append covers.leaves next.leaves
  · rw [Node.writtenOfAll_append, covers.written, next.written, List.map_append,
      String.join_append]
  · intro absent
    rcases List.append_eq_nil_iff.1 absent with ⟨first, second⟩
    rw [covers.nothing first, next.nothing second, List.append_nil]
  · intro node member
    rcases List.mem_append.1 member with first | second
    · exact covers.regular node first
    · exact next.regular node second
  · intro node member
    rcases List.mem_append.1 member with first | second
    · exact covers.formatted node first
    · exact next.formatted node second

theorem Covers.grow {kind : Kind} {taken : List Lexeme} {nodes : List Node}
    (covers : Covers taken nodes) (branchKind : kind.isToken = false) (takes : taken ≠ []) :
    Covers taken [Grammar.grow kind nodes] := by
  have parts : nodes ≠ [] := fun absent => takes (covers.nothing absent)
  have only : ∀ property : Node → Prop, property (Grammar.grow kind nodes) →
      (∀ node ∈ nodes, node.Everywhere property) →
      ∀ node ∈ [Grammar.grow kind nodes], node.Everywhere property := by
    intro property holds inside node member
    rw [List.mem_singleton.1 member, Node.everywhere_iff]
    exact ⟨holds, inside⟩
  constructor
  · have same : [Grammar.grow kind nodes].flatMap Node.leaves = nodes.flatMap Node.leaves := by
      rw [List.flatMap_singleton, ← Node.leavesOfAll_nil]
      rw [Node.leaves, Grammar.grow, Node.branch, Node.withLeading, Node.leavesBehind,
        if_neg (by simpa using parts)]
      rfl
    rw [same]
    exact covers.leaves
  · simp [Grammar.grow, Node.branch, Node.withLeading, Node.writtenOfAll, Node.written,
      covers.written, Trivia.text_empty]
  · intro absent
    cases absent
  · exact only _ ⟨rfl, .inr ⟨branchKind, rfl, parts⟩⟩ covers.regular
  · exact only Node.Formatted rfl covers.formatted

theorem Yields.covers {Rule : Type} {body : Rule → Grammar Rule} {empty : Rule → Bool}
    (sound : EmptyRules body empty) (grow : ∀ name, (body name).BranchesGrow empty = true)
    {grammar : Grammar Rule} {taken : List Lexeme} {nodes : List Node}
    (yields : Yields body grammar taken nodes) (grows : grammar.BranchesGrow empty = true) :
    Covers taken nodes := by
  induction yields with
  | token accepted => exact .token accepted
  | seq _ _ first second =>
      rw [Grammar.BranchesGrow, Bool.and_eq_true] at grows
      exact (first grows.1).append (second grows.2)
  | choiceFirst _ first =>
      rw [Grammar.BranchesGrow, Bool.and_eq_true] at grows
      exact first grows.1
  | choiceSecond _ second =>
      rw [Grammar.BranchesGrow, Bool.and_eq_true] at grows
      exact second grows.2
  | fits _ _ first next =>
      rw [Grammar.BranchesGrow, Bool.and_eq_true, Bool.and_eq_true] at grows
      exact (first grows.1.1).append (next grows.1.2)
  | fitsNot _ other =>
      rw [Grammar.BranchesGrow, Bool.and_eq_true] at grows
      exact other grows.2
  | optional _ part => exact part grows
  | optionalNone => exact .nil
  | manyEnd => exact .nil
  | manyMore _ _ part more => exact (part grows).append (more grows)
  | ahead => exact .nil
  | notAhead => exact .nil
  | @branch kind _ taken nodes yields part =>
      simp only [Grammar.BranchesGrow, Bool.and_eq_true, Bool.not_eq_true'] at grows
      apply (part grows.2).grow grows.1.1
      intro nothing
      have may := yields.mayTakeNothing sound nothing
      rw [grows.1.2] at may
      cases may
  | @rule name _ _ _ part => exact part (grow name)

theorem branchesGrow_body (name : Rule) :
    (Rule.body name).BranchesGrow Rule.mayBeEmpty = true := by
  cases name <;> decide

/-! ## Files -/

theorem endOfText_of_accepts {lexeme : Lexeme} {kind : Kind}
    (accepted : Wanted.endOfText.accepts lexeme = some kind) : lexeme.tokenClass = .endOfText := by
  cases tokenClass : lexeme.tokenClass <;> simp_all [Wanted.accepts]

theorem readTokens_covers {tokens rest : List Lexeme} {nodes : List Node}
    (fits : (readTokens tokens).result = some (nodes, rest)) :
    ∃ front last root, tokens = front ++ last :: rest ∧ last.tokenClass = .endOfText ∧
      nodes = [root] ∧ Covers (front ++ [last]) [root] := by
  have reads := readTokens_reads tokens
  rw [fits] at reads
  rcases reads.yields rfl with ⟨taken, equal, yields⟩
  have covers := yields.covers Rule.mayBeEmpty_sound branchesGrow_body rfl
  have ending : ∃ front last root, taken = front ++ [last] ∧ last.tokenClass = .endOfText ∧
      nodes = [root] := by
    rcases yields.of_rule.of_branch with ⟨inner, partYields, rfl⟩
    rcases partYields.of_seq with ⟨packages, _, _, _, rfl, -, -, behindPackages⟩
    rcases behindPackages.of_seq with ⟨imports, _, _, _, rfl, -, -, behindImports⟩
    rcases behindImports.of_seq with ⟨types, _, _, _, rfl, -, -, behindTypes⟩
    rcases behindTypes.of_token with ⟨lexeme, kind, rfl, -, accepted⟩
    exact ⟨packages ++ (imports ++ types), lexeme, _, by simp, endOfText_of_accepts accepted, rfl⟩
  rcases ending with ⟨front, last, root, rfl, lastClass, nodesEqual⟩
  subst nodesEqual
  exact ⟨front, last, root, by rw [equal, List.append_assoc]; rfl, lastClass, rfl, covers⟩

end Java

end Verbatim
