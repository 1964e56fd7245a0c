import Verbatim.Proofs.Java.Characters
import Verbatim.Proofs.Java.Covering
import Verbatim.Proofs.Printing.Explicit

/-! Reading a source file loses nothing: the leaves of the tree are the tokens of the text, the
formatting in front of them is that of the tokens, and printed the tree is the text again. -/

namespace Verbatim.Java

/-- A file that was read holds all tokens of the text, of which only the last is its end. -/
theorem readTokens_lexemes {text : String} {nodes : List Node} {rest : List Lexeme}
    (fits : (readTokens (lexemes text)).result = some (nodes, rest)) :
    ∃ front last root, lexemes text = front ++ [last] ∧
      (∀ token ∈ front, token.tokenClass ≠ .endOfText ∧ token.tokenClass ≠ .stray) ∧
      last.tokenClass = .endOfText ∧ last.text = "" ∧
      nodes = [root] ∧ rest = [] ∧ Covers (lexemes text) [root] ∧ root.written = text := by
  have cut := lexemes_cutInto text
  rcases readTokens_covers fits with ⟨front, last, root, tokens, lastClass, nodesEqual, covers⟩
  rcases cut.classes with ⟨others, final, equal, finalClass, finalText, classes⟩
  have nothingBehind : rest = [] := by
    cases rest with
    | nil => rfl
    | cons next more =>
        -- otherwise the end of the text would stand in front of the last token
        have inside : last ∈ others := by
          have shorter := congrArg List.dropLast (tokens.symm.trans equal)
          rw [List.dropLast_concat, List.dropLast_append_of_ne_nil (List.cons_ne_nil _ _),
            List.dropLast_cons_of_ne_nil (List.cons_ne_nil _ _)] at shorter
          rw [← shorter]
          simp
        exact absurd lastClass (classes last inside).1
  subst nothingBehind
  have parts := tokens.symm.trans equal
  rcases List.append_inj' parts rfl with ⟨rfl, lastEqual⟩
  cases lastEqual
  have noStray : ∀ token ∈ lexemes text, token.tokenClass ≠ .stray := by
    intro token member
    rw [tokens] at member
    rcases List.mem_append.1 member with before | here
    · exact (classes token before).2
    · rw [List.mem_singleton.1 here, lastClass]
      decide
  rw [← tokens] at covers
  have written : root.written = text := by
    have spelled := covers.written
    rw [Node.writtenOfAll, Node.writtenOfAll, String.append_empty] at spelled
    rw [spelled, ← String.toList_inj]
    exact cut.written noStray
  exact ⟨front, last, root, tokens, classes, lastClass, finalText, nodesEqual, rfl, covers,
    written⟩

theorem parse_of_readTokens {text : String} {nodes : List Node} {rest : List Lexeme}
    (fits : (readTokens (lexemes text)).result = some (nodes, rest)) :
    ∃ root tree, nodes = [root] ∧ root.hoist.sealAgainst text = .ok tree ∧
      parse text = .ok tree ∧ tree.bare = root.bare ∧
      List.Forall₂ IsLeafOf (lexemes text) tree.leaves ∧ tree.print = .ok text := by
  rcases readTokens_lexemes fits with ⟨_, _, root, _, _, _, _, rfl, rfl, covers, written⟩
  have member : root ∈ [root] := List.mem_singleton_self root
  have hoistedFormatted : root.hoist.Everywhere Node.Formatted :=
    Node.everywhere_formatted_hoist (covers.formatted root member)
  have hoistedWritten : root.hoist.written = text := by
    rw [Node.written_hoist ((covers.regular root member).mono
      fun _ regular => regular.textOrChildren), written]
  rcases Node.sealAgainst_written hoistedFormatted with ⟨tree, treeSealed⟩
  rw [hoistedWritten] at treeSealed
  rcases Node.sealAgainst_sealed treeSealed with ⟨lies, same⟩
  refine ⟨root, tree, rfl, treeSealed, ?_, ?_, ?_, ?_⟩
  · rw [parse, readTree, fits]
    exact treeSealed
  · rw [← Node.bare_withoutOrigins, same, Node.bare_withoutOrigins, Node.bare_hoist]
  · have leaves : tree.leaves = root.leaves := by
      rw [← Node.leaves_withoutOrigins tree, same, Node.leaves_withoutOrigins, Node.leaves_hoist]
    rw [leaves]
    simpa using covers.leaves
  · rcases lies.exists_origin with ⟨origin, read, -, -, -, originText⟩
    rw [Node.print_of_origin read, originText, ← Node.written_withoutOrigins tree, same,
      Node.written_withoutOrigins, hoistedWritten]

theorem parse_of_readTokens_none {text : String}
    (fits : (readTokens (lexemes text)).result = none) :
    parse text = .error (refusal text (readTokens (lexemes text)).furthest) := by
  rw [parse, readTree, fits]
  rfl

theorem parse_cases (text : String) :
    (∃ error, (readTokens (lexemes text)).result = none ∧ parse text = .error error) ∨
    ∃ root tree rest, (readTokens (lexemes text)).result = some ([root], rest) ∧
      parse text = .ok tree ∧ tree.bare = root.bare := by
  cases fits : (readTokens (lexemes text)).result with
  | none => exact .inl ⟨_, rfl, parse_of_readTokens_none fits⟩
  | some pair =>
      rcases pair with ⟨nodes, rest⟩
      rcases parse_of_readTokens fits with ⟨root, tree, rfl, -, parsed, bare, -⟩
      exact .inr ⟨root, tree, rest, rfl, parsed, bare⟩

/-- Every text has one reading as a file. Where there is none, the text is refused for what was
expected and for nothing else. Where there is one, it is one tree that takes up the whole text;
formatting can be hoisted in it and it can be sealed against the text; its leaves are the tokens
that the text falls into without regard to the grammar, the last of which is the empty end of the
text, each with its trivia in front of it; and printed the tree is the text. -/
theorem parse_lossless (text : String) :
    ∃ reading, (∀ other, ReadsFile text other ↔ other = reading) ∧
      match reading with
      | none => ∃ error wanted, parse text = .error error ∧ error.fault = .expected wanted
      | some (nodes, rest) =>
        ∃ root tree front last, nodes = [root] ∧ rest = [] ∧
          root.hoist.sealAgainst text = .ok tree ∧ parse text = .ok tree ∧
          lexemes text = front ++ [last] ∧
          (∀ token ∈ front, token.tokenClass ∈ [.literal, .word, .punctuation]) ∧
          last.tokenClass = .endOfText ∧ last.text = "" ∧
          List.Forall₂ IsLeafOf (lexemes text) tree.leaves ∧ tree.print = .ok text := by
  have reads := readsFile_readTokens text
  refine ⟨_, fun other => ⟨fun otherReads => otherReads.unique reads, fun equal => equal ▸ reads⟩,
    ?_⟩
  cases fits : (readTokens (lexemes text)).result with
  | none =>
      exact ⟨refusal text (readTokens (lexemes text)).furthest, _, parse_of_readTokens_none fits,
        rfl⟩
  | some pair =>
      rcases pair with ⟨nodes, rest⟩
      rcases readTokens_lexemes fits with ⟨front, last, _, tokens, classes, lastClass, lastText, -⟩
      rcases parse_of_readTokens fits with
        ⟨root, tree, rfl, treeSealed, parsed, -, leaves, printed⟩
      refine ⟨root, tree, front, last, rfl, rfl, treeSealed, parsed, tokens, ?_, lastClass,
        lastText, leaves, printed⟩
      intro token member
      have class_ := classes token member
      cases tokenClass : token.tokenClass <;> simp_all

end Verbatim.Java
