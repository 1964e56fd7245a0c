import Verbatim.Proofs.Java.Blindness
import Verbatim.Proofs.Languages
import Verbatim.Proofs.Tree.Frames
import Verbatim.Proofs.Tree.Lifting
import Verbatim.Proofs.Tree.Provenance
import Verbatim.Proofs.Tree.Pruning

/-! Texts of tokens. The text of a token tells its class, so two texts that fall into tokens
with the same texts are read alike; and a text that falls into the leaves of a tree is read as
that tree. -/

namespace Verbatim

namespace Java

/-! ## Classes of tokens -/

/-- The class of a token is the one that its text begins like; only the end of the text is empty. -/
def Lexeme.Plain (lexeme : Lexeme) : Prop :=
  match lexeme.text.toList with
  | [] => lexeme.tokenClass = .endOfText
  | first :: _ => lexeme.tokenClass.starts first = true

theorem Lexeme.shape_eq_of_text {lexeme other : Lexeme} (plain : lexeme.Plain)
    (otherPlain : other.Plain)
    (same : lexeme.text = other.text) : lexeme.shape = other.shape := by
  have classes : lexeme.tokenClass = other.tokenClass := by
    rw [Lexeme.Plain, same] at plain
    rw [Lexeme.Plain] at otherPlain
    cases text : other.text.toList with
    | nil =>
        rw [text] at plain otherPlain
        exact plain.trans otherPlain.symm
    | cons first rest =>
        rw [text] at plain otherPlain
        by_contra different
        have apart := TokenClass.not_starts_of_starts different first plain
        exact Bool.false_ne_true (apart.symm.trans otherPlain)
  rw [Lexeme.shape, Lexeme.shape, classes, same]

theorem CutInto.plain {cs : List Char} {tokens : List Lexeme} (cut : CutInto cs tokens)
    (noStray : ∀ token ∈ tokens, token.tokenClass ≠ .stray) : ∀ token ∈ tokens, token.Plain := by
  induction cut with
  | @token cs text rest lexeme others leading found spelling left induction =>
      rw [List.forall_mem_cons] at noStray ⊢
      refine ⟨?_, induction noStray.2⟩
      rcases lexeme.tokenClass.cutsFront _ _ _ (cutToken_eq_some_iff.1 found) with
        ⟨-, first, more, rfl, starts⟩
      rw [Lexeme.Plain, spelling, String.toList_ofList]
      exact starts
  | @last cs lexeme leading missing tokenClass spelling =>
      have real := noStray lexeme List.mem_cons_self
      intro token member
      rw [List.mem_singleton.1 member, Lexeme.Plain, spelling]
      rw [tokenClass] at real ⊢
      split at real
      · rw [if_pos ‹_›]
        rfl
      · exact absurd rfl real

/-- The texts of the tokens that a text falls into, if it does up to its end. -/
def tokenTexts? (text : String) : Option (List String) := (shape? text).map (·.map Prod.snd)

theorem tokenTexts?_eq_some_iff {text : String} {texts : List String} :
    tokenTexts? text = some texts ↔ (∀ token ∈ lexemes text, token.tokenClass ≠ .stray) ∧
      (lexemes text).map (·.text) = texts := by
  have texts_ : (lexemes text).map (·.text) = ((lexemes text).map Lexeme.shape).map Prod.snd := by
    rw [List.map_map]
    rfl
  rw [tokenTexts?, shape?, texts_]
  split
  next stray =>
    rcases List.any_eq_true.1 stray with ⟨token, member, isStray⟩
    simp only [Option.map_none, reduceCtorEq, false_iff, not_and]
    exact fun real => absurd (of_decide_eq_true isStray) (real token member)
  next none =>
    rw [List.any_eq_true] at none
    simp only [Option.map_some, Option.some.injEq, iff_and_self]
    exact fun _ token member stray => none ⟨token, member, decide_eq_true stray⟩

/-! ## Reading -/

def TakenAs (token : Kind × String) (lexeme : Lexeme) : Prop :=
  token.2 = lexeme.text ∧ ∃ wanted : Wanted, wanted.accepts lexeme = some token.1

/-- The tokens of the nodes are those that were taken, as something that the grammar wants. -/
theorem Yields.takenAsWanted {Rule : Type} {body : Rule → Grammar Rule} {tokens : Wanted → Bool}
    {rules : Rule → Bool}
    (closed : ∀ name, rules name = true → (body name).Only tokens rules = true)
    {grammar : Grammar Rule} {taken : List Lexeme} {nodes : List Node}
    (yields : Yields body grammar taken nodes) (only : grammar.Only tokens rules = true) :
    List.Forall₂ (fun token lexeme => token.2 = lexeme.text ∧ ∃ wanted, tokens wanted = true ∧
      wanted.accepts lexeme = some token.1) (nodes.flatMap Node.tokens) taken := by
  induction yields with
  | token accepted => exact .cons ⟨rfl, _, only, accepted⟩ .nil
  | seq _ _ first second =>
      rw [Grammar.Only, Bool.and_eq_true] at only
      rw [List.flatMap_append]
      exact List.rel_append (first only.1) (second only.2)
  | choiceFirst _ first =>
      rw [Grammar.Only, Bool.and_eq_true] at only
      exact first only.1
  | choiceSecond _ second =>
      rw [Grammar.Only, Bool.and_eq_true] at only
      exact second only.2
  | fits _ _ first next =>
      rw [Grammar.Only, Bool.and_eq_true, Bool.and_eq_true] at only
      rw [List.flatMap_append]
      exact List.rel_append (first only.1.1) (next only.1.2)
  | fitsNot _ other =>
      rw [Grammar.Only, Bool.and_eq_true] at only
      exact other only.2
  | optional _ part => exact part only
  | optionalNone => exact .nil
  | manyEnd => exact .nil
  | manyMore _ _ part more =>
      rw [List.flatMap_append]
      exact List.rel_append (part only) (more only)
  | ahead => exact .nil
  | notAhead => exact .nil
  | branch _ part =>
      rw [List.flatMap_singleton]
      exact (Node.tokens_mk ..).symm ▸ part only
  | @rule name _ _ part inner => exact inner (closed name only)

theorem Yields.takenAs {Rule : Type} {body : Rule → Grammar Rule} {grammar : Grammar Rule}
    {taken : List Lexeme} {nodes : List Node} (yields : Yields body grammar taken nodes) :
    List.Forall₂ TakenAs (nodes.flatMap Node.tokens) taken := by
  refine (yields.takenAsWanted (fun name _ => (body name).only_anything)
    grammar.only_anything).imp ?_
  rintro token lexeme ⟨same, wanted, -, accepted⟩
  exact ⟨same, wanted, accepted⟩

theorem Yields.tokens {Rule : Type} {body : Rule → Grammar Rule} {grammar : Grammar Rule}
    {taken : List Lexeme} {nodes : List Node} (yields : Yields body grammar taken nodes) :
    (nodes.flatMap Node.tokens).map Prod.snd = taken.map (·.text) := by
  rw [← List.forall₂_eq_eq_eq, List.forall₂_map_left_iff, List.forall₂_map_right_iff]
  exact yields.takenAs.imp fun _ _ same => same.1

theorem reads_of_parse {text : String} {tree : Node} (parsed : parse text = .ok tree) :
    ∃ root, Reads takeLexeme Rule.body (.rule .compilationUnit) (lexemes text) (some ([root], [])) ∧
      tree.bare = root.bare := by
  rcases parse_cases text with ⟨_, -, refused⟩ | ⟨root, other, rest, fits, read, bare⟩
  · rw [parsed] at refused
    cases refused
  · cases parsed.symm.trans read
    rcases readTokens_lexemes fits with ⟨-, -, -, -, -, -, -, -, rfl, -⟩
    have reads := readTokens_reads (lexemes text)
    rw [fits] at reads
    exact ⟨root, reads, bare⟩

theorem map_shape_of_texts {tokens others : List Lexeme} (plain : ∀ token ∈ tokens, token.Plain)
    (otherPlain : ∀ token ∈ others, token.Plain)
    (texts : tokens.map (·.text) = others.map (·.text)) :
    tokens.map Lexeme.shape = others.map Lexeme.shape := by
  induction others generalizing tokens with
  | nil =>
      rw [List.map_nil, List.map_eq_nil_iff] at texts
      rw [texts]
  | cons other others induction =>
      cases tokens with
      | nil => cases texts
      | cons token tokens =>
          rw [List.map_cons, List.map_cons, List.cons.injEq] at texts
          rw [List.forall_mem_cons] at plain otherPlain
          rw [List.map_cons, List.map_cons, Lexeme.shape_eq_of_text plain.1 otherPlain.1 texts.1,
            induction plain.2 otherPlain.2 texts.2]

/-- Where tokens can be read, a text that falls into tokens of the same texts is read as the same
tree but for formatting. -/
theorem parse_of_tokenTexts {left : List Lexeme} {root : Node}
    (reads : Reads takeLexeme Rule.body (.rule .compilationUnit) left (some ([root], [])))
    (plain : ∀ token ∈ left, token.Plain) {text : String}
    (same : tokenTexts? text = some (left.map (·.text))) :
    ∃ tree, parse text = .ok tree ∧ tree.bare = root.bare := by
  rcases tokenTexts?_eq_some_iff.1 same with ⟨real, texts⟩
  have shapes := map_shape_of_texts ((lexemes_cutInto text).plain real) plain texts
  have alike := readTokens_alike shapes
  rw [reads.unique (readTokens_reads left) |>.symm] at alike
  generalize outcome : (readTokens (lexemes text)).result = reading at alike
  cases alike with
  | some nodes rest =>
      rcases parse_of_readTokens outcome with ⟨other, tree, rfl, -, parsed, bare, -⟩
      rw [List.map_singleton, List.map_singleton, List.cons.injEq] at nodes
      exact ⟨tree, parsed, bare.trans nodes.1⟩

/-! ## Leaves -/

theorem IsLeafOf.not_stray {lexeme : Lexeme} {leaf : Node.Leaf} (isLeaf : IsLeafOf lexeme leaf) :
    lexeme.tokenClass ≠ .stray := by
  intro stray
  rcases isLeaf.kind with ⟨wanted, accepted⟩
  cases wanted <;> simp [Wanted.accepts, stray] at accepted

theorem map_of_isLeafOf {tokens : List Lexeme} {leaves : List Node.Leaf}
    (areLeaves : List.Forall₂ IsLeafOf tokens leaves) :
    leaves.map (·.fronts) = tokens.map (fun token => [token.leading].filter (!·.isEmpty)) ∧
      leaves.filterMap (·.text) = tokens.map (·.text) ∧
      (∀ token ∈ tokens, token.tokenClass ≠ .stray) ∧ ∀ leaf ∈ leaves, leaf.fronts.length ≤ 1 := by
  induction areLeaves with
  | nil => simp
  | @cons token leaf tokens leaves isLeaf _ induction =>
      rcases induction with ⟨fronts, texts, real, single⟩
      refine ⟨?_, ?_, List.forall_mem_cons.2 ⟨isLeaf.not_stray, real⟩,
        List.forall_mem_cons.2 ⟨?_, single⟩⟩
      · rw [List.map_cons, List.map_cons, fronts, isLeaf.fronts]
      · rw [List.filterMap_cons, isLeaf.text, List.map_cons, texts]
      · rw [isLeaf.fronts]
        exact List.length_filter_le _ _

theorem exists_isLeafOf {tokens : List Lexeme} {leaves : List Node.Leaf}
    (areLeaves : List.Forall₂ IsLeafOf tokens leaves) {leaf : Node.Leaf} (member : leaf ∈ leaves) :
    ∃ token ∈ tokens, IsLeafOf token leaf := by
  induction areLeaves with
  | nil => cases member
  | @cons token leaf tokens leaves isLeaf _ induction =>
      rcases List.mem_cons.1 member with rfl | member
      · exact ⟨token, List.mem_cons_self, isLeaf⟩
      · rcases induction member with ⟨other, inside, isLeaf⟩
        exact ⟨other, List.mem_cons_of_mem _ inside, isLeaf⟩

theorem exists_split_of_leaves {tokens : List Lexeme} {front back : List Node.Leaf}
    (areLeaves : List.Forall₂ IsLeafOf tokens (front ++ back)) :
    ∃ before behind, tokens = before ++ behind ∧ List.Forall₂ IsLeafOf before front ∧
      List.Forall₂ IsLeafOf behind back :=
  ⟨_, _, (List.take_append_drop front.length tokens).symm, List.forall₂_take_append _ _ _ areLeaves,
    List.forall₂_drop_append _ _ _ areLeaves⟩

/-- A word that is not reserved. -/
def Lexeme.Free (token : Lexeme) : Prop :=
  token.tokenClass = .word ∧ isReserved token.text = false

theorem free_of_accepts {wanted : Wanted} {token : Lexeme}
    (accepted : wanted.accepts token = some .identifier) : token.Free := by
  cases wanted <;> cases tokenClass : token.tokenClass <;>
    simp [Wanted.accepts, tokenClass] at accepted
  · exact ⟨tokenClass, accepted⟩
  · rw [wordKind] at accepted
    split at accepted
    · cases accepted
    · split at accepted
      · cases accepted
      next free => exact ⟨tokenClass, Bool.eq_false_iff.2 free⟩

theorem IsLeafOf.free {token : Lexeme} {leaf : Node.Leaf} (isLeaf : IsLeafOf token leaf)
    (isIdentifier : leaf.kind = .identifier) : token.Free := by
  rcases isLeaf.kind with ⟨wanted, accepted⟩
  exact free_of_accepts (isIdentifier ▸ accepted)

theorem IsLeafOf.not_isReserved {token : Lexeme} {leaf : Node.Leaf} (isLeaf : IsLeafOf token leaf)
    (isIdentifier : leaf.kind = .identifier) : isReserved token.text = false :=
  (isLeaf.free isIdentifier).2

theorem leaves_of_parse {text : String} {tree : Node} (parsed : parse text = .ok tree) :
    List.Forall₂ IsLeafOf (lexemes text) tree.leaves := by
  rcases parse_cases text with ⟨_, -, refused⟩ | ⟨root, _, rest, fits, read, bare⟩
  · rw [parsed] at refused
    cases refused
  · cases parsed.symm.trans read
    rcases parse_of_readTokens fits with ⟨_, _, -, -, readAgain, -, leaves, -⟩
    cases read.symm.trans readAgain
    exact leaves

theorem tokenTexts?_of_parse {text : String} {tree : Node} (parsed : parse text = .ok tree) :
    tokenTexts? text = some (tree.tokens.map Prod.snd) := by
  rcases reads_of_parse parsed with ⟨root, reads, bare⟩
  rcases reads.yields rfl with ⟨taken, all, yields⟩
  rw [List.append_nil] at all
  subst all
  refine tokenTexts?_eq_some_iff.2 ⟨(map_of_isLeafOf (leaves_of_parse parsed)).2.2.1, ?_⟩
  rw [← yields.tokens, List.flatMap_singleton, ← Node.tokens_bare, ← bare, Node.tokens_bare]

theorem plain_of_parse {text : String} {tree : Node} (parsed : parse text = .ok tree) :
    ∀ token ∈ lexemes text, token.Plain :=
  (lexemes_cutInto text).plain (map_of_isLeafOf (leaves_of_parse parsed)).2.2.1

theorem content_of_parse {text : String} {tree other : Node} (parsed : parse text = .ok tree)
    (same : tree.bare = other.bare) (formatted : other.Everywhere Node.Formatted)
    (areLeaves : List.Forall₂ IsLeafOf (lexemes text) other.leaves) :
    tree.content = other.hoist.content := by
  rcases parse_cases text with ⟨_, -, refused⟩ | ⟨root, _, rest, fits, read, bare⟩
  · rw [parsed] at refused
    cases refused
  · cases parsed.symm.trans read
    rcases readTokens_lexemes fits with ⟨_, _, _, -, -, -, -, rootEqual, -, covers, -⟩
    cases rootEqual
    rcases parse_of_readTokens fits with ⟨_, _, rootEqual, treeSealed, readAgain, -⟩
    cases rootEqual
    cases read.symm.trans readAgain
    have hoisted := (Node.sealAgainst_sealed treeSealed).2
    have leaves : List.Forall₂ IsLeafOf (lexemes text) root.leaves := by
      rw [← Node.leaves_hoist, ← Node.leaves_withoutOrigins, ← hoisted, Node.leaves_withoutOrigins]
      exact leaves_of_parse parsed
    rw [← Node.content_withoutOrigins, hoisted, Node.content_withoutOrigins]
    refine Node.content_hoist_eq_of_fronts (bare.symm.trans same)
      (covers.formatted root (List.mem_singleton_self root)) formatted ?_
      (map_of_isLeafOf leaves).2.2.2
    rw [(map_of_isLeafOf leaves).1, (map_of_isLeafOf areLeaves).1]

theorem formatted_of_parse {text : String} {tree : Node} (parsed : parse text = .ok tree) :
    tree.Everywhere Node.Formatted := fun part member => by
  rcases (parse_readFrom parsed).lies.everywhere part member with ⟨start, stop, lies⟩
  exact lies.formatted

theorem explicit_of_parse {text : String} {tree : Node} (parsed : parse text = .ok tree) :
    tree.Everywhere Node.Explicit := fun part member =>
  ⟨formatted_of_parse parsed part member, ((parse_readFrom parsed).regular part member).spelled⟩

theorem lifted_of_parse {text : String} {tree : Node} (parsed : parse text = .ok tree) :
    tree.Everywhere Node.Lifted := by
  have leaves := leaves_of_parse parsed
  exact Node.everywhere_lifted_of_content
    (content_of_parse parsed rfl (formatted_of_parse parsed) leaves)
    (Node.everywhere_lifted_hoist (map_of_isLeafOf leaves).2.2.2)

end Java

end Verbatim
