import Verbatim.Proofs.Java.Lossless

/-! The shapes of nodes. What a node of a kind may hold is seen from the places in the grammar where
nodes of the kind grow. -/

namespace Verbatim.Java

namespace Grammar

variable {Rule : Type}

/-- All places where nodes grow are as they should be, and all rules are among the given ones. -/
def Branches (allowed : Kind → Grammar Rule → Bool) (rules : Rule → Bool) : Grammar Rule → Bool
  | .token _ => true
  | .seq first second | .choice first second =>
    first.Branches allowed rules && second.Branches allowed rules
  | .ifFits first next other =>
    first.Branches allowed rules && next.Branches allowed rules && other.Branches allowed rules
  | .optional part | .many part | .ahead part | .notAhead part => part.Branches allowed rules
  | .branch kind part => allowed kind part && part.Branches allowed rules
  | .rule name => rules name

def OnlyTokens (grammar : Grammar Rule) : Bool := grammar.Branches (fun _ _ => false) fun _ => false

end Grammar

section

variable {Rule : Type} {body : Rule → Grammar Rule}

/-- What holds of tokens, and of nodes that grow where the grammar says, holds of all nodes. -/
theorem Yields.everywhere {allowed : Kind → Grammar Rule → Bool} {rules : Rule → Bool}
    {property : Node → Prop}
    (closed : ∀ name, rules name = true → (body name).Branches allowed rules = true)
    (token : ∀ (lexeme : Lexeme) (kind : Kind), kind.isToken = true → property (lexeme.node kind))
    (grown : ∀ {kind : Kind} {part : Grammar Rule} {taken : List Lexeme} {nodes : List Node},
      allowed kind part = true → Yields body part taken nodes → property (Grammar.grow kind nodes))
    {grammar : Grammar Rule} {taken : List Lexeme} {nodes : List Node}
    (yields : Yields body grammar taken nodes) (branches : grammar.Branches allowed rules = true) :
    ∀ node ∈ nodes, node.Everywhere property := by
  induction yields with
  | token accepted =>
      intro node member
      rw [List.mem_singleton.1 member, Node.everywhere_iff]
      exact ⟨token _ _ (isToken_of_accepts accepted), fun _ inside =>
        absurd inside List.not_mem_nil⟩
  | seq _ _ first second =>
      rw [Grammar.Branches, Bool.and_eq_true] at branches
      exact List.forall_mem_append.2 ⟨first branches.1, second branches.2⟩
  | choiceFirst _ first =>
      rw [Grammar.Branches, Bool.and_eq_true] at branches
      exact first branches.1
  | choiceSecond _ second =>
      rw [Grammar.Branches, Bool.and_eq_true] at branches
      exact second branches.2
  | fits _ _ first next =>
      rw [Grammar.Branches, Bool.and_eq_true, Bool.and_eq_true] at branches
      exact List.forall_mem_append.2 ⟨first branches.1.1, next branches.1.2⟩
  | fitsNot _ other =>
      rw [Grammar.Branches, Bool.and_eq_true] at branches
      exact other branches.2
  | optional _ part => exact part branches
  | optionalNone => exact fun _ member => absurd member List.not_mem_nil
  | manyEnd => exact fun _ member => absurd member List.not_mem_nil
  | manyMore _ _ part more => exact List.forall_mem_append.2 ⟨part branches, more branches⟩
  | ahead => exact fun _ member => absurd member List.not_mem_nil
  | notAhead => exact fun _ member => absurd member List.not_mem_nil
  | branch yields part =>
      rw [Grammar.Branches, Bool.and_eq_true] at branches
      intro node member
      rw [List.mem_singleton.1 member, Node.everywhere_iff]
      exact ⟨grown branches.1 yields, part branches.2⟩
  | @rule name _ _ _ part => exact part (closed name branches)

theorem Yields.isToken {part : Grammar Rule} {taken : List Lexeme} {nodes : List Node}
    (yields : Yields body part taken nodes) (tokens : part.OnlyTokens = true) :
    ∀ node ∈ nodes, node.kind.isToken = true := by
  have all : ∀ node ∈ nodes, node.Everywhere fun node => node.kind.isToken = true :=
    yields.everywhere (fun _ none => absurd none Bool.false_ne_true) (fun _ _ token => token)
      (fun none => absurd none Bool.false_ne_true) tokens
  exact fun node member => (all node member).here

end

/-! ## Kinds -/

/-- Besides tokens only nodes of these kinds grow here, and all rules are among the given ones. -/
def Grammar.Grows {Rule : Type} (kinds : Kind → Bool) (rules : Rule → Bool) : Grammar Rule → Bool
  | .token _ => true
  | .seq first second | .choice first second => first.Grows kinds rules && second.Grows kinds rules
  | .ifFits first next other =>
    first.Grows kinds rules && next.Grows kinds rules && other.Grows kinds rules
  | .optional part | .many part | .ahead part | .notAhead part => part.Grows kinds rules
  | .branch kind _ => kinds kind
  | .rule name => rules name

/-- Tokens that are taken here and nodes that grow here are as they should be, and all rules are
among the given ones. What grows further down is not looked at. -/
def Grammar.Shows {Rule : Type} (tokens : Wanted → Bool) (allowed : Kind → Grammar Rule → Bool)
    (rules : Rule → Bool) : Grammar Rule → Bool
  | .token wanted => tokens wanted
  | .seq first second | .choice first second =>
    first.Shows tokens allowed rules && second.Shows tokens allowed rules
  | .ifFits first next other =>
    first.Shows tokens allowed rules && next.Shows tokens allowed rules &&
      other.Shows tokens allowed rules
  | .optional part | .many part | .ahead part | .notAhead part => part.Shows tokens allowed rules
  | .branch kind part => allowed kind part
  | .rule name => rules name

/-- What holds of no nodes, of the nodes that show here, and of nodes behind each other when it
holds of both, holds of all that is read. Of a rule it may be known from elsewhere. -/
theorem Yields.shows {Rule : Type} {body : Rule → Grammar Rule} {tokens : Wanted → Bool}
    {allowed : Kind → Grammar Rule → Bool} {rules : Rule → Bool} {good : Lexeme → Prop}
    {motive : List Node → Prop} (nil : motive [])
    (append : ∀ {nodes others : List Node}, motive nodes → motive others → motive (nodes ++ others))
    (token : ∀ {wanted : Wanted} {lexeme : Lexeme} {kind : Kind},
      tokens wanted = true → good lexeme →
      wanted.accepts lexeme = some kind → motive [lexeme.node kind])
    (grown : ∀ {kind : Kind} {part : Grammar Rule} {taken : List Lexeme} {nodes : List Node},
      allowed kind part = true → Yields body part taken nodes → motive [Grammar.grow kind nodes])
    (rule : ∀ name, rules name = true → (body name).Shows tokens allowed rules = true ∨
      ∀ {taken : List Lexeme} {nodes : List Node}, (∀ token ∈ taken, good token) →
        Yields body (body name) taken nodes → motive nodes)
    {grammar : Grammar Rule} {taken : List Lexeme} {nodes : List Node}
    (yields : Yields body grammar taken nodes) (shows_ : grammar.Shows tokens allowed rules = true)
    (all : ∀ token ∈ taken, good token) : motive nodes := by
  induction yields with
  | token accepted => exact token shows_ (all _ List.mem_cons_self) accepted
  | seq _ _ first second =>
      rw [Grammar.Shows, Bool.and_eq_true] at shows_
      rw [List.forall_mem_append] at all
      exact append (first shows_.1 all.1) (second shows_.2 all.2)
  | choiceFirst _ first =>
      rw [Grammar.Shows, Bool.and_eq_true] at shows_
      exact first shows_.1 all
  | choiceSecond _ second =>
      rw [Grammar.Shows, Bool.and_eq_true] at shows_
      exact second shows_.2 all
  | fits _ _ first next =>
      rw [Grammar.Shows, Bool.and_eq_true, Bool.and_eq_true] at shows_
      rw [List.forall_mem_append] at all
      exact append (first shows_.1.1 all.1) (next shows_.1.2 all.2)
  | fitsNot _ other =>
      rw [Grammar.Shows, Bool.and_eq_true] at shows_
      exact other shows_.2 all
  | optional _ part => exact part shows_ all
  | optionalNone => exact nil
  | manyEnd => exact nil
  | manyMore _ _ part more =>
      rw [List.forall_mem_append] at all
      exact append (part shows_ all.1) (more shows_ all.2)
  | ahead => exact nil
  | notAhead => exact nil
  | branch yields _ => exact grown shows_ yields
  | @rule name _ _ yields part =>
      rcases rule name shows_ with inner | known
      · exact part inner all
      · exact known all yields

/-- The nodes that are read here grow where they should, and all rules are among the given ones.
What grows further down is not looked at. -/
def Grammar.Tops {Rule : Type} (allowed : Kind → Grammar Rule → Bool) (rules : Rule → Bool) :
    Grammar Rule → Bool
  | .token _ => true
  | .seq first second | .choice first second =>
    first.Tops allowed rules && second.Tops allowed rules
  | .ifFits first next other =>
    first.Tops allowed rules && next.Tops allowed rules && other.Tops allowed rules
  | .optional part | .many part | .ahead part | .notAhead part => part.Tops allowed rules
  | .branch kind part => allowed kind part
  | .rule name => rules name

theorem Grammar.grows_eq_tops {Rule : Type} (kinds : Kind → Bool) (rules : Rule → Bool)
    (grammar : Grammar Rule) :
    grammar.Grows kinds rules = grammar.Tops (fun kind _ => kinds kind) rules := by
  induction grammar with
  | seq _ _ first second => rw [Grows, Tops, first, second]
  | choice _ _ first second => rw [Grows, Tops, first, second]
  | ifFits _ _ _ first next other => rw [Grows, Tops, first, next, other]
  | optional _ part => rw [Grows, Tops, part]
  | many _ part => rw [Grows, Tops, part]
  | ahead _ part => rw [Grows, Tops, part]
  | notAhead _ part => rw [Grows, Tops, part]
  | _ => rfl

theorem Grammar.tops_eq_shows {Rule : Type} (allowed : Kind → Grammar Rule → Bool)
    (rules : Rule → Bool) (grammar : Grammar Rule) :
    grammar.Tops allowed rules = grammar.Shows (fun _ => true) allowed rules := by
  induction grammar with
  | seq _ _ first second => rw [Tops, Shows, first, second]
  | choice _ _ first second => rw [Tops, Shows, first, second]
  | ifFits _ _ _ first next other => rw [Tops, Shows, first, next, other]
  | optional _ part => rw [Tops, Shows, part]
  | many _ part => rw [Tops, Shows, part]
  | ahead _ part => rw [Tops, Shows, part]
  | notAhead _ part => rw [Tops, Shows, part]
  | _ => rfl

/-- What holds of tokens, and of nodes that grow where the grammar says, holds of the nodes that are
read. -/
theorem Yields.tops {Rule : Type} {body : Rule → Grammar Rule}
    {allowed : Kind → Grammar Rule → Bool} {rules : Rule → Bool} {property : Node → Prop}
    (closed : ∀ name, rules name = true → (body name).Tops allowed rules = true)
    (token : ∀ (lexeme : Lexeme) (kind : Kind), kind.isToken = true → property (lexeme.node kind))
    (grown : ∀ {kind : Kind} {part : Grammar Rule} {taken : List Lexeme} {nodes : List Node},
      allowed kind part = true → Yields body part taken nodes → property (Grammar.grow kind nodes))
    {grammar : Grammar Rule} {taken : List Lexeme} {nodes : List Node}
    (yields : Yields body grammar taken nodes) (tops : grammar.Tops allowed rules = true) :
    ∀ node ∈ nodes, property node := by
  simp only [Grammar.tops_eq_shows] at closed tops
  have all : ∀ token ∈ taken, (fun _ : Lexeme => True) token := fun _ _ => trivial
  refine yields.shows (motive := fun nodes => ∀ node ∈ nodes, property node)
    (fun _ member => absurd member List.not_mem_nil)
    (fun some others => List.forall_mem_append.2 ⟨some, others⟩) (fun _ _ accepted => ?_)
    (fun good inner => ?_) (fun name given => .inl (closed name given)) tops all
  · exact List.forall_mem_singleton.2 (token _ _ (isToken_of_accepts accepted))
  · exact List.forall_mem_singleton.2 (grown good inner)

theorem Yields.kinds {Rule : Type} {body : Rule → Grammar Rule} {kinds : Kind → Bool}
    {rules : Rule → Bool}
    (closed : ∀ name, rules name = true → (body name).Grows kinds rules = true)
    {grammar : Grammar Rule} {taken : List Lexeme} {nodes : List Node}
    (yields : Yields body grammar taken nodes) (grows : grammar.Grows kinds rules = true) :
    ∀ node ∈ nodes, node.kind.isToken = true ∨ kinds node.kind = true := by
  simp only [Grammar.grows_eq_tops] at closed grows
  exact yields.tops closed (fun _ _ isToken => .inl isToken) (fun good _ => .inr good) grows

theorem Reads.forall_rest {Rule : Type} {body : Rule → Grammar Rule} {property : Lexeme → Prop}
    {grammar : Grammar Rule} {input rest : List Lexeme} {nodes : List Node}
    (reads : Reads takeLexeme body grammar input (some (nodes, rest)))
    (all : ∀ token ∈ input, property token) : ∀ token ∈ rest, property token := by
  rcases reads.yields rfl with ⟨taken, rfl, -⟩
  exact (List.forall_mem_append.1 all).2

/-- What holds of tokens, and of nodes that grow where the grammar was read, holds of all nodes that
were read. -/
theorem Reads.everywhere {Rule : Type} {body : Rule → Grammar Rule}
    {allowed : Kind → Grammar Rule → Bool} {rules : Rule → Bool} {good : Lexeme → Prop}
    {property : Node → Prop}
    (closed : ∀ name, rules name = true → (body name).Branches allowed rules = true)
    (token : ∀ (lexeme : Lexeme) (kind : Kind), kind.isToken = true → property (lexeme.node kind))
    (grown : ∀ {kind : Kind} {part : Grammar Rule} {input rest : List Lexeme} {nodes : List Node},
      allowed kind part = true → (∀ token ∈ input, good token) →
        Reads takeLexeme body part input (some (nodes, rest)) → property (Grammar.grow kind nodes))
    {grammar : Grammar Rule} {input rest : List Lexeme} {nodes : List Node}
    {reading : Reading (List Lexeme)} (reads : Reads takeLexeme body grammar input reading)
    (fit : reading = some (nodes, rest)) (branches : grammar.Branches allowed rules = true)
    (all : ∀ token ∈ input, good token) :
    ∀ node ∈ nodes, node.Everywhere property := by
  -- on the reading: what was looked at only gives no nodes
  induction reads generalizing nodes rest with
  | @token wanted tokens =>
      cases tokens with
      | nil => cases fit
      | cons lexeme left =>
          simp only [takeLexeme, Option.map_map, Option.map_eq_some_iff] at fit
          rcases fit with ⟨kind, accepted, equal⟩
          cases equal
          intro node member
          rw [List.mem_singleton.1 member, Node.everywhere_iff]
          exact ⟨token _ _ (isToken_of_accepts accepted),
            fun _ inside => absurd inside List.not_mem_nil⟩
  | seq firstReads _ first second =>
      rw [Grammar.Branches, Bool.and_eq_true] at branches
      rcases Reading.after_eq_some_iff.1 fit with ⟨others, secondFit, rfl⟩
      exact List.forall_mem_append.2 ⟨first rfl branches.1 all,
        second secondFit branches.2 (firstReads.forall_rest all)⟩
  | seqNone => cases fit
  | choiceFirst _ first =>
      rw [Grammar.Branches, Bool.and_eq_true] at branches
      exact first fit branches.1 all
  | choiceSecond _ _ _ second =>
      rw [Grammar.Branches, Bool.and_eq_true] at branches
      exact second fit branches.2 all
  | fits firstReads _ first next =>
      rw [Grammar.Branches, Bool.and_eq_true, Bool.and_eq_true] at branches
      rcases Reading.after_eq_some_iff.1 fit with ⟨others, nextFit, rfl⟩
      exact List.forall_mem_append.2 ⟨first rfl branches.1.1 all,
        next nextFit branches.1.2 (firstReads.forall_rest all)⟩
  | fitsNot _ _ _ other =>
      rw [Grammar.Branches, Bool.and_eq_true] at branches
      exact other fit branches.2 all
  | @optional _ _ reading _ part =>
      cases reading with
      | none =>
          cases fit
          exact fun _ member => absurd member List.not_mem_nil
      | some pair => exact part fit branches all
  | manyEnd =>
      cases fit
      exact fun _ member => absurd member List.not_mem_nil
  | manyMore partReads _ part more =>
      rcases Reading.after_eq_some_iff.1 fit with ⟨others, moreFit, rfl⟩
      exact List.forall_mem_append.2 ⟨part rfl branches all,
        more moreFit branches (partReads.forall_rest all)⟩
  | ahead =>
      split at fit <;> cases fit
      exact fun _ member => absurd member List.not_mem_nil
  | notAhead =>
      split at fit <;> cases fit
      exact fun _ member => absurd member List.not_mem_nil
  | branch partReads part =>
      rw [Grammar.Branches, Bool.and_eq_true] at branches
      rcases Option.map_eq_some_iff.1 fit with ⟨⟨inner, left⟩, rfl, equal⟩
      cases equal
      intro node member
      rw [List.mem_singleton.1 member, Node.everywhere_iff]
      exact ⟨grown branches.1 all partReads, part rfl branches.2 all⟩
  | @rule name _ _ _ part => exact part fit (closed name branches) all

/-! ## Files -/

theorem parse_yields {text : String} {tree : Node} (parsed : parse text = .ok tree) :
    ∃ taken root, Yields Rule.body (.rule .compilationUnit) taken [root] ∧
      tree.bare = root.bare := by
  rcases parse_cases text with ⟨error, -, failed⟩ | ⟨root, other, rest, fits, otherParsed, bare⟩
  · rw [parsed] at failed
    cases failed
  · rw [parsed] at otherParsed
    cases otherParsed
    have reads := readTokens_reads (lexemes text)
    rw [fits] at reads
    rcases reads.yields rfl with ⟨taken, -, yields⟩
    exact ⟨taken, root, yields, bare⟩

theorem kind_of_parse {text : String} {tree : Node} (parsed : parse text = .ok tree) :
    tree.kind = .sourceFile := by
  rcases parse_yields parsed with ⟨taken, root, yields, bare⟩
  rcases yields.of_rule.of_branch with ⟨inner, -, equal⟩
  rw [← Node.kind_bare, bare, (List.cons.inj equal).1, Node.kind_bare]
  rfl

theorem tokens_of_parse {text : String} {tree : Node} (parsed : parse text = .ok tree) {kind : Kind}
    (only : ∀ name, (Rule.body name).Branches
      (fun other part => other ≠ kind || part.OnlyTokens) (fun _ => true) = true) :
    tree.Everywhere fun node => node.kind = kind → ∀ child ∈ node.children,
      child.kind.isToken = true := by
  rcases parse_yields parsed with ⟨taken, root, yields, bare⟩
  refine Node.everywhere_of_mapHeads_eq (fun node => ?_) bare ?_
  · show (node.bare.kind = kind → ∀ child ∈ node.bare.children, child.kind.isToken = true) ↔ _
    rw [Node.kind_bare, Node.bare, Node.children_mapHeads, List.forall_mem_map]
    exact imp_congr_right fun _ => forall_congr' fun child => imp_congr_right fun _ =>
      iff_of_eq (congrArg (·.isToken = true) (Node.kind_bare child))
  · refine yields.everywhere (fun name _ => only name) ?_ ?_ rfl root (List.mem_singleton_self root)
    · exact fun lexeme other _ _ child inside => absurd inside List.not_mem_nil
    · intro other part taken nodes allowed partYields same
      have isKind : other = kind := same
      rw [isKind, decide_eq_false (not_not_intro rfl), Bool.false_or] at allowed
      exact partYields.isToken allowed

theorem inside_of_parse {text : String} {tree : Node} (parsed : parse text = .ok tree) {kind : Kind}
    {good : Kind → Bool} {rules : Rule → Bool}
    (closed : ∀ name, rules name = true →
      (Rule.body name).Branches (fun other _ => good other) rules = true)
    (only : ∀ name, (Rule.body name).Branches
      (fun other part => other ≠ kind || part.Branches (fun other _ => good other) rules)
      (fun _ => true) = true) :
    tree.Everywhere fun node => node.kind = kind → ∀ child ∈ node.children,
      child.Everywhere fun part => part.kind.isToken = true ∨ good part.kind = true := by
  rcases parse_yields parsed with ⟨taken, root, yields, bare⟩
  have blind (part : Node) : (part.bare.kind.isToken = true ∨ good part.bare.kind = true) ↔
      (part.kind.isToken = true ∨ good part.kind = true) := by rw [Node.kind_bare]
  refine Node.everywhere_of_mapHeads_eq (fun node => ?_) bare ?_
  · show (node.bare.kind = kind → ∀ child ∈ node.bare.children, child.Everywhere _) ↔ _
    rw [Node.kind_bare, Node.bare, Node.children_mapHeads, List.forall_mem_map]
    exact imp_congr_right fun _ => forall_congr' fun child => imp_congr_right fun _ =>
      Node.everywhere_mapHeads blind child
  · refine yields.everywhere (fun name _ => only name) ?_ ?_ rfl root (List.mem_singleton_self root)
    · exact fun lexeme other _ _ child inside => absurd inside List.not_mem_nil
    · intro other part taken nodes allowed partYields same
      have isKind : other = kind := same
      rw [isKind, decide_eq_false (not_not_intro rfl), Bool.false_or] at allowed
      exact partYields.everywhere closed (fun _ _ isToken => .inl isToken)
        (fun isGood _ => .inr isGood) allowed

end Verbatim.Java
