import Verbatim.Proofs.Java.Continuing
import Verbatim.Proofs.Java.Elements
import Verbatim.Proofs.Java.Words
import Verbatim.Proofs.Printing.Marking

/-! What every tree has that was read from a file. All formatting is explicit and stands at the
outermost node that starts at its place, all nodes remember where they were read and are
different elements, and tokens are told from other nodes by their kinds. Identifiers are words
that are not reserved; all other words are reserved, but for one that introduces permitted
subtypes. -/

namespace Verbatim.Java

/-! ## Words -/

theorem CutInto.words {cs : List Char} {tokens : List Lexeme} (cut : CutInto cs tokens)
    (noStray : ∀ token ∈ tokens, token.tokenClass ≠ .stray) :
    ∀ token ∈ tokens, isWord token.text.toList = true ↔ token.tokenClass = .word := by
  have plain := cut.plain noStray
  intro token member
  constructor
  · intro word
    rcases isWord_iff.1 word with ⟨first, more, spelled, starts, -⟩
    have here := plain token member
    rw [Lexeme.Plain, spelled] at here
    by_contra different
    have apart := TokenClass.not_starts_of_starts (Ne.symm different) first starts
    exact Bool.false_ne_true (apart.symm.trans here)
  · clear plain
    induction cut with
    | @token cs text rest lexeme others leading found spelling left induction =>
        rw [List.forall_mem_cons] at noStray
        rcases List.mem_cons.1 member with rfl | member
        · intro isWord_
          have cutHere := cutToken_eq_some_iff.1 found
          rw [isWord_, (cutToken_append found).1] at cutHere
          rw [spelling, String.toList_ofList]
          exact (cutWord_eq_some_iff.1 cutHere).1
        · exact induction noStray.2 member
    | @last cs lexeme leading missing tokenClass spelling =>
        rw [List.mem_singleton.1 member, tokenClass]
        intro isWord_
        split at isWord_ <;> cases isWord_

/-! ## Words among nodes -/

/-- The text of the node is a word that is not reserved. -/
def Named (node : Node) : Prop :=
  ∃ word, node.text = some word ∧ isWord word.toList = true ∧ isReserved word = false

/-- An identifier is a word that is not reserved, and every other word is reserved. -/
structure Told (node : Node) : Prop where
  name : node.kind = .identifier → Named node
  other : node.kind ≠ .identifier →
    ∀ word, node.text = some word → isWord word.toList = true → isReserved word = true

def IntroducesSubtypes (word : Node) (behind : List Node) : Prop :=
  word.kind = .keyword ∧ word.text = some permits ∧ ∃ type ∈ behind.head?, type.kind = .typeRef

def AllTold : List Node → Prop
  | [] => True
  | node :: behind => (Told node ∨ IntroducesSubtypes node behind) ∧ AllTold behind

theorem AllTold.append {nodes others : List Node} (told : AllTold nodes) (behind : AllTold others) :
    AllTold (nodes ++ others) := by
  induction nodes with
  | nil => exact behind
  | cons node rest induction =>
      refine ⟨told.1.imp_right fun introduces => ?_, induction told.2⟩
      rcases introduces with ⟨isKeyword, spelled, type, isNext, isType⟩
      refine ⟨isKeyword, spelled, type, ?_, isType⟩
      cases rest with
      | nil => cases isNext
      | cons next more => exact isNext

theorem allTold_of_forall {nodes : List Node} (told : ∀ node ∈ nodes, Told node) :
    AllTold nodes := by
  induction nodes with
  | nil => trivial
  | cons node rest induction =>
      rw [List.forall_mem_cons] at told
      exact ⟨.inl told.1, induction told.2⟩

theorem AllTold.at {front behind : List Node} {node : Node}
    (told : AllTold (front ++ node :: behind)) :
    Told node ∨ IntroducesSubtypes node behind := by
  induction front with
  | nil => exact told.1
  | cons _ _ induction => exact induction told.2

theorem told_bare (node : Node) : Told node.bare ↔ Told node := by
  constructor
  · rintro ⟨name, other⟩
    rw [Named, Node.kind_bare, Node.text_bare] at name
    rw [Node.kind_bare, Node.text_bare] at other
    exact ⟨name, other⟩
  · rintro ⟨name, other⟩
    rw [Named, ← Node.kind_bare, ← Node.text_bare] at name
    rw [← Node.kind_bare, ← Node.text_bare] at other
    exact ⟨name, other⟩

theorem allTold_map_bare (nodes : List Node) : AllTold (nodes.map Node.bare) ↔ AllTold nodes := by
  induction nodes with
  | nil => rfl
  | cons node rest induction =>
      rw [List.map_cons, AllTold, AllTold, induction, told_bare,
        IntroducesSubtypes, IntroducesSubtypes, Node.kind_bare, Node.text_bare, List.head?_map]
      cases rest.head? <;> simp

theorem told_grow {kind : Kind} (isBranch : kind ≠ .identifier) (nodes : List Node) :
    Told (Grammar.grow kind nodes) :=
  ⟨fun same => absurd same isBranch, fun _ _ none => nomatch none⟩

/-- A token whose text tells whether it is a word. -/
def Lexeme.Spelled (token : Lexeme) : Prop :=
  isWord token.text.toList = true ↔ token.tokenClass = .word

theorem told_of_accepts {wanted : Wanted} {token : Lexeme} {kind : Kind}
    (stable : wanted.isStable = true) (spelled : token.Spelled)
    (accepted : wanted.accepts token = some kind) : Told (token.node kind) := by
  constructor
  · intro (isIdentifier : kind = .identifier)
    rcases free_of_accepts (isIdentifier ▸ accepted) with ⟨isWord_, free⟩
    exact ⟨token.text, rfl, spelled.2 isWord_, free⟩
  · intro other word same isWord_
    cases same
    by_contra free
    rw [Wanted.accepts_free stable ⟨spelled.1 isWord_, Bool.eq_false_iff.2 free⟩] at accepted
    split at accepted
    · exact other (Option.some.inj accepted).symm
    · cases accepted

/-! ## Words in the grammar -/

def Rule.tells (rules : Rule → Bool) (part : Body) : Bool :=
  part.Shows Wanted.isStable (fun kind _ => kind ≠ .identifier) rules

theorem told_of_yields {grammar : Rule.Body} {taken : List Lexeme} {nodes : List Node}
    (yields : Yields Rule.body grammar taken nodes)
    (tells : Rule.tells (· ≠ .supertypes) grammar = true)
    (spelled : ∀ token ∈ taken, token.Spelled) : ∀ node ∈ nodes, Told node := by
  have closed : ∀ name : Rule, decide (name ≠ .supertypes) = true →
      Rule.tells (· ≠ .supertypes) (Rule.body name) = true := by
    decide
  refine yields.shows (motive := fun nodes => ∀ node ∈ nodes, Told node)
    (fun _ member => absurd member List.not_mem_nil)
    (fun some others => List.forall_mem_append.2 ⟨some, others⟩)
    (fun stable spelled accepted => ?_) (fun isBranch _ => ?_)
    (fun name given => .inl (closed name given)) tells spelled
  · exact List.forall_mem_singleton.2 (told_of_accepts stable spelled accepted)
  · exact List.forall_mem_singleton.2 (told_grow (of_decide_eq_true isBranch) _)

theorem keyword_of_accepts {word : String} {token : Lexeme} {kind : Kind}
    (accepted : (Wanted.keyword word).accepts token = some kind) :
    kind = .keyword ∧ token.text = word := by
  cases tokenClass : token.tokenClass <;> simp [Wanted.accepts, tokenClass] at accepted
  exact ⟨accepted.2.symm, accepted.1⟩

theorem allTold_of_supertypes {taken : List Lexeme} {nodes : List Node}
    (spelled : ∀ token ∈ taken, token.Spelled)
    (yields : Yields Rule.body (Rule.body .supertypes) taken nodes) : AllTold nodes := by
  rcases yields.of_seq with ⟨_, _, words, _, rfl, rfl, wordYields, typeYields⟩
  rcases typeYields.of_seq with ⟨_, _, types, others, rfl, rfl, firstYields, otherYields⟩
  rcases firstYields.of_rule.of_branch with ⟨inner, -, rfl⟩
  simp only [List.forall_mem_append] at spelled
  have type : Told (Grammar.grow .typeRef inner) := told_grow (by decide) inner
  have later : AllTold (Grammar.grow .typeRef inner :: others) :=
    ⟨.inl type, allTold_of_forall (told_of_yields otherYields rfl spelled.2.2)⟩
  cases wordYields with
  | choiceFirst extends_ =>
      exact (allTold_of_forall (told_of_yields extends_ rfl spelled.1)).append later
  | choiceSecond others =>
      cases others with
      | choiceFirst implements_ =>
          exact (allTold_of_forall (told_of_yields implements_ rfl spelled.1)).append later
      | choiceSecond permits_ =>
          rcases permits_.of_token with ⟨token, kind, -, rfl, accepted⟩
          rcases keyword_of_accepts accepted with ⟨rfl, text⟩
          exact ⟨.inr ⟨rfl, congrArg some text, _, rfl, rfl⟩, later⟩

theorem allTold_of_yields {grammar : Rule.Body} {taken : List Lexeme} {nodes : List Node}
    (yields : Yields Rule.body grammar taken nodes)
    (tells : Rule.tells (fun _ => true) grammar = true)
    (spelled : ∀ token ∈ taken, token.Spelled) : AllTold nodes := by
  refine yields.shows trivial (fun told behind => told.append behind)
    (fun stable spelled accepted => allTold_of_forall (List.forall_mem_singleton.2 ?_))
    (fun isBranch _ => allTold_of_forall (List.forall_mem_singleton.2 ?_)) (fun name _ => ?_)
    tells spelled
  · exact told_of_accepts stable spelled accepted
  · exact told_grow (of_decide_eq_true isBranch) _
  · by_cases clause : name = .supertypes
    · subst clause
      exact .inr allTold_of_supertypes
    · refine .inl ?_
      revert name
      decide

/-- The words among the children of a node are told, and only declarations of classes hold
clauses of supertypes. -/
structure TellsWords (node : Node) : Prop where
  others : node.kind ≠ .classDecl → ∀ child ∈ node.children, Told child
  supertypes : node.kind = .classDecl → AllTold node.children

theorem tellsWords_bare (node : Node) : TellsWords node.bare ↔ TellsWords node := by
  constructor
  · rintro ⟨others, supertypes⟩
    rw [Node.kind_bare, Node.children_bare] at others supertypes
    refine ⟨fun other child member => ?_, fun isClass =>
      (allTold_map_bare _).1 (supertypes isClass)⟩
    exact (told_bare child).1 (others other _ (List.mem_map_of_mem member))
  · rintro ⟨others, supertypes⟩
    rw [← Node.kind_bare] at others supertypes
    refine ⟨fun other => ?_, fun isClass => ?_⟩
    · rw [Node.children_bare, List.forall_mem_map]
      exact fun child member => (told_bare child).2 (others other child member)
    · rw [Node.children_bare]
      exact (allTold_map_bare _).2 (supertypes isClass)

def Rule.tellsWords (kind : Kind) (part : Body) : Bool :=
  if kind = .classDecl then tells (fun _ => true) part else tells (· ≠ .supertypes) part

theorem Rule.tellsWords_body (name : Rule) :
    (body name).Branches tellsWords (fun _ => true) = true := by
  revert name
  decide +kernel

theorem everywhere_tellsWords_of_parse {text : String} {tree : Node}
    (parsed : parse text = .ok tree) :
    tree.Everywhere TellsWords := by
  rcases reads_of_parse parsed with ⟨root, reads, bare⟩
  have spelled : ∀ token ∈ lexemes text, token.Spelled :=
    (lexemes_cutInto text).words (map_of_isLeafOf (leaves_of_parse parsed)).2.2.1
  refine Node.everywhere_of_mapHeads_eq tellsWords_bare bare (reads.everywhere
    (fun name _ => Rule.tellsWords_body name) (fun token kind _ => ?_)
    (fun allowed spelled partReads => ?_) rfl rfl spelled root (List.mem_singleton_self root))
  · exact ⟨fun _ child member => absurd member List.not_mem_nil, fun _ => trivial⟩
  next kind part input rest nodes =>
    rcases partReads.yields rfl with ⟨taken, rfl, yields⟩
    rw [List.forall_mem_append] at spelled
    rw [Rule.tellsWords] at allowed
    constructor
    · intro (other : kind ≠ .classDecl)
      rw [if_neg other] at allowed
      exact told_of_yields yields allowed spelled.1
    · intro (isClass : kind = .classDecl)
      rw [if_pos isClass] at allowed
      exact allTold_of_yields yields allowed spelled.1

/-! ## Normal form -/

/-- A node as it comes from a file. -/
structure Normal (node : Node) : Prop where
  leading : node.leading.isSome
  origin : node.origin.isSome
  trailing : node.trailing = .empty
  markers : node.markers = []
  /-- Tokens have no children, and all other nodes have some. -/
  leaf : node.children = [] ↔ node.kind.isToken = true
  /-- Tokens have text, and no other nodes do. -/
  text : node.text.isSome ↔ node.kind.isToken = true
  /-- Formatting stands at the outermost node that starts at its place. -/
  outermost : ∀ first ∈ node.children.head?, first.leading = some .empty

/-- How words stand in a tree that comes from a file. -/
structure Worded (node : Node) : Prop where
  /-- An identifier is a word that is not reserved. -/
  name : node.kind = .identifier → Named node
  /-- Every other word is reserved, or introduces permitted subtypes in a declaration of a
  class: then the first of these follows it. -/
  words : ∀ front leaf behind word, node.children = front ++ leaf :: behind →
      leaf.text = some word →
    isWord word.toList = true → leaf.kind ≠ .identifier → isReserved word = true ∨
      word = permits ∧ leaf.kind = .keyword ∧ node.kind = .classDecl ∧
        ∃ type ∈ behind.head?, type.kind = .typeRef

theorem TellsWords.child {node leaf : Node} {front behind : List Node} (tells : TellsWords node)
    (inside : node.children = front ++ leaf :: behind) :
    Told leaf ∨ node.kind = .classDecl ∧ IntroducesSubtypes leaf behind := by
  by_cases isClass : node.kind = .classDecl
  · have told := tells.supertypes isClass
    rw [inside] at told
    exact told.at.imp_right fun introduces => ⟨isClass, introduces⟩
  · refine .inl (tells.others isClass leaf ?_)
    rw [inside]
    exact List.mem_append_right _ List.mem_cons_self

theorem TellsWords.worded {node : Node} (tells : TellsWords node)
    (name : node.kind = .identifier → Named node) : Worded node := by
  refine ⟨name, fun front leaf behind word inside same isWord_ other => ?_⟩
  rcases tells.child inside with told | ⟨isClass, isKeyword, spelled, introduces⟩
  · exact .inl (told.other other word same isWord_)
  · exact .inr ⟨Option.some.inj (same.symm.trans spelled), isKeyword, isClass, introduces⟩

theorem everywhere_worded {node : Node} (tells : node.Everywhere TellsWords)
    (name : node.kind = .identifier → Named node) : node.Everywhere Worded := by
  induction node using Node.induction with
  | step node induction =>
      refine Node.everywhere_iff.2 ⟨tells.here.worded name, fun child member => ?_⟩
      refine induction child member (tells.child member) fun isIdentifier => ?_
      rcases List.append_of_mem member with ⟨front, behind, inside⟩
      rcases tells.here.child inside with told | ⟨-, isKeyword, -⟩
      · exact told.name isIdentifier
      · cases isIdentifier.symm.trans isKeyword

theorem normal_withoutIds (node : Node) : Normal node.withoutIds ↔ Normal node := by
  rcases node with ⟨head, children⟩
  have first : (∀ first ∈ (children.map Node.withoutIds).head?, first.leading = some .empty) ↔
      ∀ first ∈ children.head?, first.leading = some .empty := by
    cases children with
    | nil => rfl
    | cons first rest =>
        rcases first with ⟨firstHead, firstChildren⟩
        rw [List.map_cons, Node.withoutIds_mk]
        simp
  rw [Node.withoutIds_mk]
  constructor
  · rintro ⟨leading, origin, trailing, markers, leaf, text, outermost⟩
    exact ⟨leading, origin, trailing, markers, List.map_eq_nil_iff.symm.trans leaf, text,
      first.1 outermost⟩
  · rintro ⟨leading, origin, trailing, markers, leaf, text, outermost⟩
    exact ⟨leading, origin, trailing, markers, List.map_eq_nil_iff.trans leaf, text,
      first.2 outermost⟩

theorem everywhere_normal_of_parse {text : String} {tree : Node} (parsed : parse text = .ok tree) :
    tree.Everywhere Normal := by
  intro part member
  have formatted := formatted_of_parse parsed
  rcases (parse_readFrom parsed).lies.everywhere part member with ⟨start, stop, lies⟩
  rcases lies.exists_origin with ⟨origin, remembers, -⟩
  have regular := (parse_readFrom parsed).regular part member
  refine ⟨formatted part member, Option.isSome_of_eq_some remembers, regular.trailing,
    everywhere_markers_of_parse parsed part member, ?_, ?_, fun first isFirst => ?_⟩
  · rcases regular.leafOrBranch with ⟨isToken, -, none⟩ | ⟨isBranch, -, some⟩
    · exact iff_of_true none isToken
    · exact iff_of_false some (Bool.eq_false_iff.1 isBranch)
  · rcases regular.leafOrBranch with ⟨isToken, text, -⟩ | ⟨isBranch, none, -⟩
    · exact iff_of_true text isToken
    · exact iff_of_false (by rw [none]; exact Bool.false_ne_true) (Bool.eq_false_iff.1 isBranch)
  · have inside : first ∈ part.children := List.mem_of_mem_head? isFirst
    rcases Option.isSome_iff_exists.1 ((formatted.below member).child inside).here with
      ⟨leading, equal⟩
    have empty := lifted_of_parse parsed part member first isFirst
    rw [Node.hasLeading, Node.leadingOrEmpty, equal, Bool.not_eq_false'] at empty
    rw [equal, show leading = .empty from Trivia.eq_empty_of_isEmpty empty]

/-- Reading a file into elements gives the tree that the file is read as, and a file is refused
in the same way. Every node of the tree has formatting in front of it that was decided, an
origin, no formatting behind it and no markers; tokens have text, other nodes have children and
no text; and the first child of a node has no formatting of its own. All nodes are different
elements, though nodes are kept and found again when something else is tried at the same place.
Identifiers are words that are not reserved, and all other words are reserved, but for the one
that introduces permitted subtypes. -/
theorem parseElements_normal (first : Nat) (text : String) :
    (parseElements first text).map Node.withoutIds = parse text ∧
      ∀ tree, parseElements first text = .ok tree →
        tree.Everywhere Normal ∧ (tree.preorder.map (·.id)).Nodup ∧
          tree.kind = .sourceFile ∧ tree.Everywhere Worded := by
  have same := parseElements_withoutIds first text
  refine ⟨same, fun tree read => ?_⟩
  rw [read] at same
  have parsed : parse text = .ok tree.withoutIds := same.symm
  have kind : tree.kind = .sourceFile := by
    rw [← Node.kind_bare, ← Node.bare_withoutIds, Node.kind_bare, kind_of_parse parsed]
  have tells : tree.Everywhere TellsWords :=
    Node.everywhere_of_mapHeads_eq tellsWords_bare tree.bare_withoutIds.symm
      (everywhere_tellsWords_of_parse parsed)
  refine ⟨(Node.everywhere_mapHeads normal_withoutIds tree).1 (everywhere_normal_of_parse parsed),
    different_of_parseElements read, kind, everywhere_worded tells fun isIdentifier => ?_⟩
  cases kind.symm.trans isIdentifier

end Verbatim.Java
