import Verbatim.Proofs.Java.Lossless

/-! Formatting has no say in how a text is read. Two texts with the same tokens are both refused, or
they are read as trees of one shape. -/

namespace Verbatim.Java

/-- The tokens of a text without positions and trivia, if it falls into tokens up to its end. -/
def shape? (text : String) : Option (List (TokenClass × String)) :=
  if (lexemes text).any fun token => token.tokenClass = .stray then none
  else some ((lexemes text).map Lexeme.shape)

theorem accepts_of_shape {lexeme other : Lexeme} (same : lexeme.shape = other.shape)
    (wanted : Wanted) : wanted.accepts lexeme = wanted.accepts other := by
  rw [Lexeme.shape, Lexeme.shape, Prod.mk.injEq] at same
  rcases same with ⟨sameClass, sameText⟩
  unfold Wanted.accepts
  rw [sameClass, sameText]

theorem takeLexeme_agree_of_shape :
    Agree takeLexeme takeLexeme (fun _ => true) Node.bare
      (fun tokens others => tokens.map Lexeme.shape = others.map Lexeme.shape) where
  token := by
    intro wanted tokens others _ same
    cases tokens with
    | nil =>
        have absent : others = [] := by simpa using same.symm
        rw [absent]
        exact .none
    | cons lexeme rest =>
        cases others with
        | nil => cases same
        | cons other left =>
            rw [List.map_cons, List.map_cons, List.cons.injEq] at same
            have sameText : lexeme.text = other.text := (Prod.mk.inj same.1).2
            rw [takeLexeme, takeLexeme, accepts_of_shape same.1]
            cases wanted.accepts other with
            | none => exact .none
            | some kind =>
                refine .some ?_ same.2
                simp [Lexeme.node, Node.bare_withLeading, sameText]
  grow := by
    intro kind nodes others same
    rw [Grammar.grow, Grammar.grow, Node.bare_withLeading, Node.bare_withLeading, Node.branch,
      Node.branch, Node.bare_mk, Node.bare_mk, same]

theorem readTokens_alike {tokens others : List Lexeme}
    (same : tokens.map Lexeme.shape = others.map Lexeme.shape) :
    Reading.Alike Node.bare
      (fun tokens others => tokens.map Lexeme.shape = others.map Lexeme.shape)
      (readTokens tokens).result (readTokens others).result := by
  rcases (readTokens_reads tokens).transfer takeLexeme_agree_of_shape
    (fun name _ => (Rule.body name).only_anything) rfl same with ⟨reading, otherReads, alike⟩
  rw [otherReads.unique (readTokens_reads others)] at alike
  exact alike

theorem shape?_of_readTokens {text : String} {nodes : List Node} {rest : List Lexeme}
    (fits : (readTokens (lexemes text)).result = some (nodes, rest)) :
    shape? text = some ((lexemes text).map Lexeme.shape) := by
  rcases readTokens_lexemes fits with ⟨front, last, _, tokens, classes, lastClass, -⟩
  have noStray : ¬ ((lexemes text).any fun token => token.tokenClass = .stray) = true := by
    intro found
    rcases List.any_eq_true.1 found with ⟨token, member, stray⟩
    rw [decide_eq_true_eq] at stray
    rw [tokens] at member
    rcases List.mem_append.1 member with before | here
    · exact (classes token before).2 stray
    · rw [List.mem_singleton.1 here, lastClass] at stray
      cases stray
  rw [shape?, if_neg noStray]

theorem map_shape_of_shape? {text : String} {shape : List (TokenClass × String)}
    (found : shape? text = some shape) : (lexemes text).map Lexeme.shape = shape := by
  rw [shape?] at found
  split at found
  · cases found
  · exact Option.some.inj found

theorem parse_error_of_shape? {text : String} (stray : shape? text = none) :
    ∃ error, parse text = .error error := by
  rcases parse_cases text with ⟨error, -, refused⟩ | ⟨root, tree, rest, fits, -⟩
  · exact ⟨error, refused⟩
  · rw [shape?_of_readTokens fits] at stray
    cases stray

/-- Two texts with the same tokens are both refused, or both are read; then their trees agree in
all kinds, texts and children, and differ at most in leading formatting, identities and origins. A
text that does not fall into tokens up to its end is refused. -/
theorem parse_blind {first second : String} (same : shape? first = shape? second) :
    ((∃ error, parse first = .error error) ∧ ∃ error, parse second = .error error) ∨
    (shape? first).isSome ∧ ∃ tree other, parse first = .ok tree ∧ parse second = .ok other ∧
      tree.bare = other.bare := by
  cases shape : shape? first with
  | none =>
      have otherShape := same.symm.trans shape
      exact .inl ⟨parse_error_of_shape? shape, parse_error_of_shape? otherShape⟩
  | some tokens =>
      have alike := readTokens_alike ((map_shape_of_shape? shape).trans
        (map_shape_of_shape? (same.symm.trans shape)).symm)
      rcases parse_cases first with ⟨error, missing, refused⟩ | ⟨root, tree, _, fits, parsed, bare⟩
      · rcases parse_cases second with ⟨otherError, -, otherRefused⟩ | ⟨_, _, _, otherFits, -⟩
        · exact .inl ⟨⟨error, refused⟩, otherError, otherRefused⟩
        · rw [missing, otherFits] at alike
          cases alike
      · rcases parse_cases second with
          ⟨_, otherMissing, -⟩ | ⟨other, otherTree, _, otherFits, otherParsed, otherBare⟩
        · rw [fits, otherMissing] at alike
          cases alike
        · rw [fits, otherFits] at alike
          have sameNodes : [root].map Node.bare = [other].map Node.bare := by
            cases alike with
            | some sameNodes _ => exact sameNodes
          rw [List.map_singleton, List.map_singleton, List.cons.injEq] at sameNodes
          refine .inr ⟨rfl, tree, otherTree, parsed, otherParsed, ?_⟩
          rw [bare, otherBare, sameNodes.1]

/-- A comment, line breaks and blanks do not change how a class is read. -/
theorem parse_blind_of_commented_class :
    shape? "class A\x7b\x7d" = shape? "class // c\n A \x7b /* x */ \x7d\n" ∧
      ∃ tree other, parse "class A\x7b\x7d" = .ok tree ∧
        parse "class // c\n A \x7b /* x */ \x7d\n" = .ok other ∧ tree.bare = other.bare := by
  have same : shape? "class A\x7b\x7d" = shape? "class // c\n A \x7b /* x */ \x7d\n" := by
    decide +kernel
  refine ⟨same, ?_⟩
  rcases parse_blind same with ⟨⟨error, refused⟩, -⟩ | ⟨-, both⟩
  · have read : ((parse "class A\x7b\x7d").toOption.map Node.size) = some 8 := by decide +kernel
    rw [refused] at read
    cases read
  · exact both

end Verbatim.Java
