import Verbatim.Proofs.Java.Inserting
import Verbatim.Proofs.Java.Shapes
import Verbatim.Proofs.Tree.Spots

/-! Comments that do not end. No trivia is cut where a block comment opens and does not end, so
a token may be looked for there: a slash and a star are tokens wherever any token may stand, and
nowhere else. -/

namespace Verbatim

open Text (StandsAt)

/-- The node is a token, and where it begins its source goes on with what opens a block comment. -/
def Node.OpensComment (source : String) (node : Node) : Prop :=
  node.children = [] ∧ ∃ place, node.begins = some place ∧ StandsAt source place (place + 2) "/*"

/-- A slash and a star are leaves next to each other, and there is nothing between the two. -/
def Node.SlashBeforeStar (node : Node) : Prop :=
  ∃ fronts, [⟨fronts, .punctuation, some "/"⟩, ⟨[], .punctuation, some "*"⟩] <:+: node.leaves

namespace Java

/-! ## Where a slash may stand -/

namespace Grammar

variable {Rule : Type}

/-- The tokens that become nodes by themselves, not parts of a node that grows, are among the given
ones, and so are the rules that read such tokens. -/
def Loose (tokens : Wanted → Bool) (rules : Rule → Bool) : Grammar Rule → Bool
  | .token wanted => tokens wanted
  | .seq first second | .choice first second =>
      first.Loose tokens rules && second.Loose tokens rules
  | .ifFits first next other =>
    first.Loose tokens rules && next.Loose tokens rules && other.Loose tokens rules
  | .optional part | .many part => part.Loose tokens rules
  | .ahead _ | .notAhead _ | .branch _ _ => true
  | .rule name => rules name

end Grammar

theorem Yields.loose {Rule : Type} {body : Rule → Grammar Rule} {tokens : Wanted → Bool}
    {rules : Rule → Bool}
    (closed : ∀ name, rules name = true → (body name).Loose tokens rules = true)
    {grammar : Grammar Rule} {taken : List Lexeme} {nodes : List Node}
    (yields : Yields body grammar taken nodes) (isLoose : grammar.Loose tokens rules = true) :
    ∀ node ∈ nodes, node.text = none ∨ ∃ wanted lexeme, tokens wanted = true ∧
      wanted.accepts lexeme = some node.kind ∧ node.text = some lexeme.text := by
  induction yields with
  | @token wanted lexeme _ accepted =>
      intro node member
      rw [List.mem_singleton.1 member]
      exact .inr ⟨wanted, lexeme, isLoose, accepted, rfl⟩
  | seq _ _ first second =>
      rw [Grammar.Loose, Bool.and_eq_true] at isLoose
      exact List.forall_mem_append.2 ⟨first isLoose.1, second isLoose.2⟩
  | choiceFirst _ first =>
      rw [Grammar.Loose, Bool.and_eq_true] at isLoose
      exact first isLoose.1
  | choiceSecond _ second =>
      rw [Grammar.Loose, Bool.and_eq_true] at isLoose
      exact second isLoose.2
  | fits _ _ first next =>
      rw [Grammar.Loose, Bool.and_eq_true, Bool.and_eq_true] at isLoose
      exact List.forall_mem_append.2 ⟨first isLoose.1.1, next isLoose.1.2⟩
  | fitsNot _ other =>
      rw [Grammar.Loose, Bool.and_eq_true] at isLoose
      exact other isLoose.2
  | optional _ part => exact part isLoose
  | optionalNone => exact fun _ member => absurd member List.not_mem_nil
  | manyEnd => exact fun _ member => absurd member List.not_mem_nil
  | manyMore _ _ part more => exact List.forall_mem_append.2 ⟨part isLoose, more isLoose⟩
  | ahead => exact fun _ member => absurd member List.not_mem_nil
  | notAhead => exact fun _ member => absurd member List.not_mem_nil
  | branch =>
      intro node member
      rw [List.mem_singleton.1 member]
      exact .inl rfl
  | @rule name _ _ _ part => exact part (closed name isLoose)

/-- What may be a slash. -/
def Wanted.maySlash : Wanted → Bool
  | plain => true
  | punctuation text => text = "/"
  | _ => false

def Rule.readsAnything (rule : Rule) : Bool :=
  [statementStart, statementRest, expressionItem, groupItem].contains rule

/-- The nodes that hold any tokens but brackets. -/
def holdsAnything (kind : Kind) : Bool := [.statement, .expression, .group].contains kind

theorem Rule.loose_body (name : Rule) (other : (!name.readsAnything) = true) :
    (body name).Loose (!·.maySlash) (!·.readsAnything) = true := by
  revert name
  decide

theorem Rule.branches_holdsAnything (name : Rule) :
    (body name).Branches
      (fun kind part => holdsAnything kind || part.Loose (!·.maySlash) (!·.readsAnything))
      (fun _ => true) = true := by
  revert name
  decide

theorem not_slash_of_accepts {wanted : Wanted} {lexeme : Lexeme}
    (accepted : wanted.accepts lexeme = some .punctuation) (other : wanted.maySlash = false) :
    lexeme.text ≠ "/" := by
  cases wanted with
  | punctuation text =>
      cases tokenClass : lexeme.tokenClass <;> simp [Wanted.accepts, tokenClass] at accepted
      rintro isSlash
      rw [Wanted.maySlash, ← accepted, isSlash] at other
      cases other
  | plain => cases other
  | _ => cases tokenClass : lexeme.tokenClass <;> simp [Wanted.accepts, tokenClass] at accepted

theorem slashes_of_parse {text : String} {tree : Node} (parsed : parse text = .ok tree) :
    tree.Everywhere fun node => holdsAnything node.kind = false →
      ∀ child ∈ node.children, child.isPunctuation "/" = false := by
  rcases parse_yields parsed with ⟨taken, root, yields, bare⟩
  refine Node.everywhere_of_mapHeads_eq (fun node => ?_) bare ?_
  · show (holdsAnything node.bare.kind = false →
      ∀ child ∈ node.bare.children, child.isPunctuation "/" = false) ↔ _
    rw [Node.kind_bare, Node.children_bare, List.forall_mem_map]
    exact imp_congr_right fun _ => forall_congr' fun child => imp_congr_right fun _ => by
      rw [Node.isPunctuation, Node.isPunctuation, Node.is_bare, Node.text_bare]
  · refine yields.everywhere (fun name _ => Rule.branches_holdsAnything name) ?_ ?_ rfl root
      (List.mem_singleton_self root)
    · exact fun lexeme other _ _ child inside => absurd inside List.not_mem_nil
    · intro kind part taken nodes allowed partYields other child member
      have kindOther : holdsAnything kind = false := other
      rw [kindOther, Bool.false_or] at allowed
      rcases partYields.loose Rule.loose_body allowed child member with none | found
      · rw [Node.isPunctuation, none, Bool.and_eq_false_iff]
        exact .inr rfl
      · rcases found with ⟨wanted, lexeme, noSlash, accepted, spelled⟩
        rw [Bool.not_eq_true'] at noSlash
        rw [Node.isPunctuation, Bool.and_eq_false_iff, Node.is, decide_eq_false_iff_not, spelled,
          decide_eq_false_iff_not]
        by_cases isPunctuation : child.kind = .punctuation
        · rw [isPunctuation] at accepted
          exact .inr fun same => not_slash_of_accepts accepted noSlash (Option.some.inj same)
        · exact .inl isPunctuation

/-! ## What is cut there -/

/-- Where a token begins at the opener of a block comment there is a slash, a star behind it,
and no end of a comment. -/
theorem FallsApart.opener {token : Lexeme} {tokens : List Lexeme}
    (apart : FallsApart (token :: tokens)) (real : token.tokenClass ≠ .stray) {rest : List Char}
    (opens : token.text.toList ++ charactersOf tokens = '/' :: '*' :: rest) :
    token.shape = (.punctuation, "/") ∧ Trivia.cutBlock rest = none ∧
      ∃ star more, tokens = star :: more ∧ star.leading = .empty ∧
        star.shape = (.punctuation, "*") := by
  have trivia := apart.cut_leading real
  have noComment := (cutTrivia_behind trivia).2.1
  rw [opens, Trivia.cutComment, Option.map_eq_none_iff] at noComment
  have some : tokens ≠ [] := by
    rintro rfl
    rw [FallsApart] at apart
    generalize charactersOf [token] = cs at apart
    cases apart with
    | token _ _ _ behind => exact absurd rfl behind.ne_nil
    | last _ _ _ spelling =>
        rw [spelling] at opens
        cases opens
  rw [FallsApart, charactersOf_cons] at apart
  rcases (CutInto.cons_iff some).1 apart with ⟨-, found, behind⟩
  rw [opens] at found
  have slash := (cutToken_eq_some_iff.2 found).symm.trans
    (cutToken_eq_some_iff.2 (rfl : TokenClass.punctuation.cut ('/' :: '*' :: rest) = _))
  simp only [Option.some.injEq, Prod.mk.injEq] at slash
  rcases slash with ⟨slashClass, slashText, behindSlash⟩
  have nothing : Trivia.cut ('*' :: rest) = (.empty, '*' :: rest) :=
    @cutTrivia_spaces "" (fun _ absent => absurd absent List.not_mem_nil) _
      (fun _ _ equal => (List.cons.inj equal).1 ▸ rfl) (cutComment_of_noSlash
        fun _ _ equal => (List.cons.inj equal).1 ▸ by decide)
  refine ⟨Prod.ext slashClass (String.toList_inj.1 slashText), noComment, ?_⟩
  rw [behindSlash] at behind
  cases behind with
  | @token _ text left star more leading starFound spelling _ =>
      rw [nothing] at leading starFound
      have isStar := starFound.symm.trans
        (cutToken_eq_some_iff.2 (rfl : TokenClass.punctuation.cut ('*' :: rest) = _))
      simp only [Option.some.injEq, Prod.mk.injEq] at isStar
      exact ⟨star, more, rfl, leading, Prod.ext isStar.1 (spelling.trans (congrArg _ isStar.2.1))⟩
  | last _ missing _ _ =>
      rw [nothing, cutToken_eq_none_iff] at missing
      cases missing .punctuation

/-! ## Openers in a tree -/

theorem exists_tokens_of_spot {text : String} {tree : Node}
    (parsed : parse text = .ok tree) {place : Nat}
    {kind : Kind} {spelled : Option String}
    (here : (some place, kind, spelled) ∈ Node.spots 0 tree.leaves) :
    ∃ before token behind, FallsApart (token :: behind) ∧ token.tokenClass ≠ .stray ∧
      text = String.ofList (charactersOf before) ++ token.leading.text ++
        String.ofList (token.text.toList ++ charactersOf behind) ∧
      place = (String.ofList (charactersOf before) ++ token.leading.text).utf8ByteSize ∧
      spelled = some token.text ∧ (∃ wanted : Wanted, wanted.accepts token = some kind) ∧
      ∃ leaves fronts others, tree.leaves = leaves ++ ⟨fronts, kind, spelled⟩ :: others ∧
        List.Forall₂ IsLeafOf behind others := by
  have apart := fallsApart_lexemes parsed
  have areLeaves := leaves_of_parse parsed
  have whole : text = String.ofList (charactersOf (lexemes text)) := by
    have read := parse_readFrom parsed
    rw [charactersOf_eq_written read.regular areLeaves, read.written, String.ofList_toList]
  rcases Node.mem_spots.1 here with ⟨front, fronts, others, leaves, placeEqual⟩
  rw [leaves] at areLeaves
  rcases exists_split_of_leaves areLeaves with ⟨before, rest, tokens, frontLeaves, restLeaves⟩
  cases restLeaves with
  | @cons token _ behind _ isLeaf behindLeaves =>
      rw [FallsApart, tokens, charactersOf_append] at apart
      refine ⟨before, token, behind, apart.behind (List.cons_ne_nil _ _), isLeaf.not_stray, ?_, ?_,
        isLeaf.text, isLeaf.kind, front, fronts, others, leaves, behindLeaves⟩
      · conv_lhs => rw [whole, tokens, charactersOf_append, charactersOf_cons]
        simp [String.append_assoc]
      · rw [placeEqual, isLeaf.join_fronts, charactersOf_of_leaves frontLeaves,
          String.ofList_toList, String.utf8ByteSize_append]
        omega

theorem kind_of_mark {wanted : Wanted} {token : Lexeme} {kind : Kind} {text : String}
    (isMark : token.shape = (.punctuation, text)) (accepted : wanted.accepts token = some kind) :
    kind = .punctuation := by
  have tokenClass : token.tokenClass = .punctuation := (Prod.mk.inj isMark).1
  cases wanted <;> simp [Wanted.accepts, tokenClass] at accepted
  · exact accepted.2.symm
  · exact accepted.2.symm

/-- What is seen where a leaf opens a comment: a slash with a star behind it, and behind both no
end of a comment. -/
theorem seen_of_opensComment {text : String} {tree leaf : Node} (parsed : parse text = .ok tree)
    (member : leaf ∈ tree.preorder) (opens : leaf.OpensComment text) :
    leaf.isPunctuation "/" = true ∧ tree.SlashBeforeStar ∧
      ∃ front rest, text = front ++ "/*" ++ rest ∧ leaf.begins = some front.utf8ByteSize ∧
        ¬ ['*', '/'] <:+: rest.toList := by
  rcases opens with ⟨alone, place, begins, front, rest, textEqual, rfl, -⟩
  have isLeafNode : leaf ∈ tree.leafNodes :=
    List.mem_filter.2 ⟨member, by rw [alone]; rfl⟩
  have read := parse_readFrom parsed
  have here : leaf.spot ∈ Node.spots 0 tree.leaves := by
    rw [Node.leaves, ← read.lies.map_spot read.regular [] rfl]
    exact List.mem_map_of_mem isLeafNode
  rw [Node.spot, begins] at here
  rcases exists_tokens_of_spot parsed here with
    ⟨before, token, behind, apart, real, whole, placeEqual,
    spelled, ⟨wanted, accepted⟩, leaves, fronts, others, leavesEqual, behindLeaves⟩
  have sameRest := (Text.append_inj_of_utf8ByteSize_eq
    ((whole.symm.trans textEqual).trans (String.append_assoc ..)) placeEqual.symm).2
  have opener : token.text.toList ++ charactersOf behind = '/' :: '*' :: rest.toList := by
    have characters := congrArg String.toList sameRest
    rw [String.toList_ofList, String.toList_append] at characters
    exact characters
  rcases apart.opener real opener with ⟨slash, unended, star, more, rfl, noFront, starShape⟩
  have isSlash : leaf.kind = .punctuation := kind_of_mark slash accepted
  have slashText : leaf.text = some "/" := spelled.trans (congrArg some (Prod.mk.inj slash).2)
  have slashThere : leaf.isPunctuation "/" = true := by
    simp [Node.isPunctuation, Node.is, isSlash, slashText]
  refine ⟨slashThere, ⟨fronts, ?_⟩, front, rest, textEqual, begins,
    cutBlock_eq_none_iff.1 unended⟩
  cases behindLeaves with
  | @cons _ starLeaf _ others isLeaf _ =>
      rcases isLeaf.kind with ⟨_, starAccepted⟩
      have isStar : starLeaf = ⟨[], .punctuation, some "*"⟩ := by
        have starFronts : starLeaf.fronts = [] := by
          rw [isLeaf.fronts, noFront]
          rfl
        rw [show starLeaf = ⟨starLeaf.fronts, starLeaf.kind, starLeaf.text⟩ from rfl, isLeaf.text,
          (Prod.mk.inj starShape).2, kind_of_mark starShape starAccepted, starFronts]
      rw [leavesEqual, isSlash, slashText, isStar]
      exact ⟨leaves, others, by simp⟩

theorem opens_of_slashBeforeStar {text : String} {tree : Node} (parsed : parse text = .ok tree)
    (stand : tree.SlashBeforeStar) : ∃ leaf ∈ tree.preorder, leaf.OpensComment text := by
  rcases stand with ⟨fronts, before, behind, leaves⟩
  have read := parse_readFrom parsed
  rw [List.append_assoc, List.cons_append] at leaves
  have here : (some (0 + (String.join (before.map Node.Leaf.written)).utf8ByteSize +
      (String.join (fronts.map Trivia.text)).utf8ByteSize), Kind.punctuation, some "/") ∈
        Node.spots 0 tree.leaves := Node.mem_spots.2 ⟨before, fronts, _, leaves.symm, rfl⟩
  rw [Node.leaves, ← read.lies.map_spot read.regular [] rfl, List.mem_map] at here
  rcases here with ⟨leaf, member, spot⟩
  rcases List.mem_filter.1 member with ⟨inside, alone⟩
  refine ⟨leaf, inside, List.isEmpty_iff.1 alone, _, (Prod.mk.inj spot).1,
    String.join (before.map Node.Leaf.written) ++ String.join (fronts.map Trivia.text),
    String.join (behind.map Node.Leaf.written), ?_, ?_, rfl⟩
  · rw [← read.written, Node.written_eq_join_leaves read.regular, ← leaves]
    have mark (more : String) : "/" ++ ("*" ++ more) = "/*" ++ more := (String.append_assoc ..).symm
    simp [Node.Leaf.written, String.join_append, String.join_cons, String.append_assoc, mark]
  · rw [String.utf8ByteSize_append]
    omega

theorem closes_behind {front rest before others : String}
    (equal : front ++ rest = before ++ "*/" ++ others)
    (later : front.utf8ByteSize ≤ before.utf8ByteSize) : ['*', '/'] <:+: rest.toList := by
  have characters := congrArg String.toList equal
  rw [String.append_assoc, String.toList_append, String.toList_append,
    List.append_eq_append_iff] at characters
  have stands : ("*/" ++ others).toList = ['*', '/'] ++ others.toList := String.toList_append
  rcases characters with ⟨between, -, restEqual⟩ | ⟨between, frontEqual, closing⟩
  · exact ⟨between, others.toList, by rw [restEqual, stands, List.append_assoc]⟩
  · have nothing : between = [] := by
      have size := congrArg (fun cs => (String.ofList cs).utf8ByteSize) frontEqual
      simp only [String.ofList_append, String.ofList_toList, String.utf8ByteSize_append] at size
      have empty : String.ofList between = "" := String.utf8ByteSize_eq_zero_iff.1 (by omega)
      rw [← String.toList_ofList (l := between), empty]
      rfl
    exact ⟨[], others.toList, by rw [List.nil_append, ← stands, closing, nothing, List.nil_append]⟩

/-- No leaf of a text that was read begins where a comment opens and does not end, unless a
slash stands right before a star. So does every leaf that begins there; it is a token of a
statement, an expression or a group, and no comment ends behind it. -/
theorem opensComment_iff {text : String} {tree : Node} (parsed : parse text = .ok tree) :
    ((∀ leaf ∈ tree.preorder, ¬ leaf.OpensComment text) ↔ ¬ tree.SlashBeforeStar) ∧
    ∀ parent ∈ tree.preorder, ∀ leaf ∈ parent.children, leaf.OpensComment text →
      leaf.isPunctuation "/" = true ∧ holdsAnything parent.kind = true ∧
      ∀ place, leaf.begins = some place → ∀ start stop, place + 2 ≤ start →
        ¬ StandsAt text start stop "*/" := by
  refine ⟨⟨fun none stand => ?_, fun none leaf member opens =>
    none (seen_of_opensComment parsed member opens).2.1⟩,
    fun parent parentMember leaf member opens => ?_⟩
  · rcases opens_of_slashBeforeStar parsed stand with ⟨leaf, member, opens⟩
    exact none leaf member opens
  · have inside : leaf ∈ tree.preorder :=
      (Node.Everywhere.below (fun _ here => here : tree.Everywhere (· ∈ tree.preorder))
        parentMember).child
        member |>.here
    rcases seen_of_opensComment parsed inside opens with
      ⟨slash, -, front, rest, textEqual, begins, unended⟩
    refine ⟨slash, ?_, fun place begins' start stop behind closes => unended ?_⟩
    · rw [← Bool.not_eq_false]
      intro other
      rw [slashes_of_parse parsed parent parentMember other leaf member] at slash
      cases slash
    · cases Option.some.inj (begins.symm.trans begins')
      rcases closes with ⟨before, others, again, rfl, -⟩
      exact closes_behind (textEqual.symm.trans again) (by rwa [String.utf8ByteSize_append])

/-- A value with a slash and a star in it. -/
theorem opensComment_iff_of_value :
    ∃ tree, parse "class A \x7b int x = 1 /* foo; \x7d" = .ok tree ∧ tree.SlashBeforeStar ∧
      ∃ leaf ∈ tree.preorder, leaf.OpensComment "class A \x7b int x = 1 /* foo; \x7d" := by
  have read : (parse "class A \x7b int x = 1 /* foo; \x7d").toOption.any fun tree =>
      (tree.leaves.drop 7).take 2 =
        [⟨[.ofWhitespace " "], .punctuation, some "/"⟩, ⟨[], .punctuation, some "*"⟩] := by
    decide +kernel
  cases parsed : parse "class A \x7b int x = 1 /* foo; \x7d" with
  | error fault =>
      rw [parsed] at read
      cases read
  | ok tree =>
      rw [parsed] at read
      have stand : tree.SlashBeforeStar := by
        refine ⟨[.ofWhitespace " "], tree.leaves.take 7, (tree.leaves.drop 7).drop 2, ?_⟩
        rw [← of_decide_eq_true read, List.append_assoc, List.take_append_drop,
          List.take_append_drop]
      refine ⟨tree, rfl, stand, ?_⟩
      by_contra none
      exact (opensComment_iff parsed).1.1
        (fun leaf member opens => none ⟨leaf, member, opens⟩) stand

end Java

end Verbatim
