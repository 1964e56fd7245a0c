import Verbatim.Proofs.Java.Values
import Verbatim.Proofs.Java.Words

/-! Reading with other words. Free words are told apart from each other at one place of the
grammar only, in front of the types that a class permits. Everywhere else a file with other free
words is read in the same way; there it is, too, unless a block becomes the body of the value in
front of it. -/

namespace Verbatim.Java

open Grammar (punctuation identifier keyword separated)
open Rule (declared enumCore typeCore nextValue)

/-! ## Tokens with other words -/

/-- The same token, or a free word in the place of another one. -/
structure Lexeme.Alike (token other : Lexeme) : Prop where
  plain : other.Plain
  same : other.shape = token.shape ∨ token.Free ∧ other.Free

theorem accepts_of_alike {wanted : Wanted} (stable : wanted.isStable = true) {token other : Lexeme}
    (alike : token.Alike other) : wanted.accepts other = wanted.accepts token := by
  rcases alike.same with same | ⟨free, otherFree⟩
  · exact accepts_of_shape same wanted
  · rw [Wanted.accepts_free stable free, Wanted.accepts_free stable otherFree]

theorem takeLexeme_agree_of_alike :
    Agree takeLexeme takeLexeme Wanted.isStable Node.frame (List.Forall₂ Lexeme.Alike) where
  token := by
    intro wanted tokens others stable alike
    cases alike with
    | nil => exact .none
    | cons here behind =>
        rw [takeLexeme, takeLexeme, accepts_of_alike stable here]
        cases wanted.accepts _ with
        | none => exact .none
        | some kind => exact .some rfl behind
  grow := by
    intro kind nodes others same
    show Node.frame ⟨_, nodes⟩ = Node.frame ⟨_, others⟩
    rw [Node.frame_mk, Node.frame_mk, same]
    rfl

/-! ## Rules that are blind to free words -/

namespace Rule

def readsClasses (rule : Rule) : Bool :=
  [compilationUnit, topLevel, classDecl, supertypes, classBody, enumBody, enumValues, enumValue,
    member].contains rule

theorem only_stable (name : Rule) (other : (!name.readsClasses) = true) :
    (body name).Only Wanted.isStable (fun name => !name.readsClasses) = true := by
  revert other
  cases name <;> decide

end Rule

def Grammar.IsBlind (grammar : Grammar Rule) : Bool :=
  grammar.Only Wanted.isStable fun name => !name.readsClasses

section

variable {grammar part first second : Grammar Rule} {next later : List Lexeme → Prop}
  {input other between rest back taken front : List Lexeme} {nodes others new : List Node}

theorem Reads.of_alike (blind : grammar.IsBlind = true) {reading : Reading (List Lexeme)}
    (reads : Reads takeLexeme Rule.body grammar input reading)
    (alike : List.Forall₂ Lexeme.Alike input other) :
    ∃ found, Reads takeLexeme Rule.body grammar other found ∧
      Reading.Alike Node.frame (List.Forall₂ Lexeme.Alike) reading found :=
  reads.transfer takeLexeme_agree_of_alike Rule.only_stable blind alike

theorem Reads.none_of_alike (blind : grammar.IsBlind = true)
    (reads : Reads takeLexeme Rule.body grammar input none)
    (alike : List.Forall₂ Lexeme.Alike input other) :
    Reads takeLexeme Rule.body grammar other none := by
  rcases reads.of_alike blind alike with ⟨_, again, ⟨⟩⟩
  exact again

theorem takes_of_alike {wanted : Wanted} (stable : wanted.isStable = true)
    (takes : (takeLexeme wanted input).isSome = true)
    (alike : List.Forall₂ Lexeme.Alike input other) :
    (takeLexeme wanted other).isSome = true := by
  cases alike with
  | nil => cases takes
  | cons here _ => rwa [takeLexeme, Option.isSome_map, accepts_of_alike stable here,
      ← Option.isSome_map, ← takeLexeme]

theorem takes_of_reads {wanted : Wanted}
    (reads : Reads takeLexeme Rule.body (.token wanted) input (some (nodes, rest))) :
    (takeLexeme wanted input).isSome = true := by
  rcases reads.of_token with ⟨token, kind, rfl, accepted, -⟩
  rw [takeLexeme, accepted]
  rfl

theorem none_of_alike_apart {wanted : Wanted} {name : Rule} (stable : wanted.isStable = true)
    (there : (takeLexeme wanted input).isSome = true)
    (separate : (name.starts.all fun first => wanted.apart first) = true)
    (takes : name.mayBeEmpty = false) (alike : List.Forall₂ Lexeme.Alike input other) :
    Reads takeLexeme Rule.body (.rule name) other none := by
  have there := takes_of_alike stable there alike
  cases other with
  | nil => cases there
  | cons token other =>
      rw [takeLexeme, Option.isSome_map] at there
      refine Rule.none_of_refuses (fun first starts => ?_) takes
      rw [takeLexeme_cons_eq_none]
      exact Wanted.accepts_eq_none_of_apart (List.all_eq_true.1 separate first starts) there

theorem plain_of_alike (alike : List.Forall₂ Lexeme.Alike input other) :
    ∀ token ∈ other, token.Plain := by
  induction alike with
  | nil => nofun
  | cons here _ induction => exact List.forall_mem_cons.2 ⟨here.plain, induction⟩

/-! ## What is read again -/

/-- The nodes with other texts: these are the tokens of the new nodes, with other free words for
some of the identifiers there were, and no block of theirs can be taken for the body of a
value. -/
structure Rewords (nodes new : List Node) (front : List Lexeme) : Prop where
  frames : new.map Node.frame = nodes.map Node.frame
  texts : (new.flatMap Node.tokens).map Prod.snd = front.map (·.text)
  words : List.Forall₂ (fun (token : Kind × String) other => other.Plain ∧
    (other.text = token.2 ∨ token.1 = .identifier ∧ other.Free)) (nodes.flatMap Node.tokens) front
  below : ∀ node ∈ new, node.Everywhere fun part => part.children.IsChain LeavesBlock
  leaves : new.IsChain LeavesBlock

namespace Rewords

theorem plain (rewords : Rewords nodes new front) : ∀ token ∈ front, token.Plain := by
  have words := rewords.words
  generalize nodes.flatMap Node.tokens = tokens at words
  clear rewords
  induction words with
  | nil => nofun
  | cons here _ induction => exact List.forall_mem_cons.2 ⟨here.1, induction⟩

theorem of_nil (rewords : Rewords [] new front) : new = [] ∧ front = [] := by
  rcases rewords with ⟨frames, -, words, -⟩
  exact ⟨List.map_eq_nil_iff.1 frames, List.forall₂_nil_left_iff.1 words⟩

theorem split (rewords : Rewords (nodes ++ others) new front) :
    ∃ first more before behind, new = first ++ more ∧ front = before ++ behind ∧
      Rewords nodes first before ∧ Rewords others more behind := by
  rcases rewords with ⟨frames, texts, words, below, leaves⟩
  rw [List.map_append, List.map_eq_append_iff] at frames
  rcases frames with ⟨first, more, rfl, sameFirst, sameMore⟩
  rw [List.flatMap_append] at words
  rw [List.forall_mem_append] at below
  rcases List.isChain_append.1 leaves with ⟨leavesFirst, leavesMore, -⟩
  have before := List.forall₂_take (nodes.flatMap Node.tokens).length words
  have behind := List.forall₂_drop (nodes.flatMap Node.tokens).length words
  rw [List.take_left' rfl] at before
  rw [List.drop_left' rfl] at behind
  rw [← List.take_append_drop (nodes.flatMap Node.tokens).length front, List.flatMap_append,
    List.map_append, List.map_append] at texts
  have lengths : ((first.flatMap Node.tokens).map Prod.snd).length =
      ((front.take (nodes.flatMap Node.tokens).length).map (·.text)).length := by
    rw [List.length_map, List.length_map, Node.length_tokens_of_frames sameFirst]
    exact before.length_eq
  rcases List.append_inj texts lengths with ⟨textsFirst, textsMore⟩
  exact ⟨first, more, _, _, rfl, (List.take_append_drop _ front).symm,
    ⟨sameFirst, textsFirst, before, below.1, leavesFirst⟩,
    ⟨sameMore, textsMore, behind, below.2, leavesMore⟩⟩

theorem of_grow {kind : Kind} (rewords : Rewords [Grammar.grow kind nodes] new front) :
    ∃ node, new = [node] ∧ Rewords nodes node.children front := by
  rcases rewords with ⟨frames, texts, words, below, -⟩
  rw [List.map_singleton, List.map_eq_singleton_iff] at frames
  rcases frames with ⟨⟨head, children⟩, rfl, frame⟩
  have noText : head.text = none := by
    rw [Node.frame_mk, Grammar.grow, Node.withLeading, Node.branch, Node.frame_mk, Node.mk.injEq,
      NodeHead.mk.injEq] at frame
    exact Option.map_eq_none_iff.1 frame.1.2.2.2.1
  have tokens : (Grammar.grow kind nodes).tokens = nodes.flatMap Node.tokens := Node.tokens_mk ..
  rw [List.flatMap_singleton, Node.tokens_mk, noText] at texts
  rw [List.flatMap_singleton, tokens] at words
  have here := below _ (List.mem_singleton_self _)
  exact ⟨_, rfl, Node.children_of_frame frame, texts, words, fun _ member => here.child member,
    here.here⟩

theorem alike (rewords : Rewords nodes new front)
    (takenAs : List.Forall₂ TakenAs (nodes.flatMap Node.tokens) taken)
    (plain : ∀ token ∈ taken, token.Plain) : List.Forall₂ Lexeme.Alike taken front := by
  have words := rewords.words
  generalize nodes.flatMap Node.tokens = tokens at words takenAs
  clear rewords
  induction takenAs generalizing front with
  | nil =>
      cases words
      exact .nil
  | @cons token lexeme _ _ here _ induction =>
      cases words with
      | cons reworded later =>
          rw [List.forall_mem_cons] at plain
          refine .cons ⟨reworded.1, ?_⟩ (induction plain.2 later)
          rcases reworded with ⟨otherPlain, same | ⟨isIdentifier, free⟩⟩
          · exact .inl (Lexeme.shape_eq_of_text otherPlain plain.1 (same.trans here.1))
          · rcases here.2 with ⟨wanted, accepted⟩
            exact .inr ⟨free_of_accepts (isIdentifier ▸ accepted), free⟩

end Rewords

/-- A grammar reads nodes of the same kinds from the tokens with other words, whatever other words
there are behind them. -/
def Carries (next : List Lexeme → Prop) (grammar : Grammar Rule) (input : List Lexeme)
    (nodes : List Node) (rest : List Lexeme) : Prop :=
  (∀ token ∈ input, token.Plain) → ∀ new front back, Rewords nodes new front →
    List.Forall₂ Lexeme.Alike rest back → next back →
      ∃ found, Reads takeLexeme Rule.body grammar (front ++ back) (some (found, back)) ∧
        found.map Node.frame = nodes.map Node.frame

theorem Reads.input_alike (reads : Reads takeLexeme Rule.body grammar input (some (nodes, rest)))
    (plain : ∀ token ∈ input, token.Plain) (rewords : Rewords nodes new front)
    (alike : List.Forall₂ Lexeme.Alike rest back) :
    List.Forall₂ Lexeme.Alike input (front ++ back) := by
  rcases reads.yields rfl with ⟨taken, rfl, yields⟩
  rw [List.forall_mem_append] at plain
  exact List.rel_append (rewords.alike yields.takenAs plain.1) alike

namespace Carries

theorem mono (carries : Carries next grammar input nodes rest)
    (implies : ∀ back, later back → next back) :
    Carries later grammar input nodes rest :=
  fun plain new front back rewords alike holds =>
    carries plain new front back rewords alike (implies back holds)

theorem of_blind (blind : grammar.IsBlind = true)
    (reads : Reads takeLexeme Rule.body grammar input (some (nodes, rest))) :
    Carries next grammar input nodes rest := by
  intro plain new front back rewords alike _
  rcases reads.of_alike blind (reads.input_alike plain rewords alike) with
    ⟨_, again, ⟨⟩ | ⟨same, left⟩⟩
  rename_i found left
  rcases again.yields rfl with ⟨taken, equal, -⟩
  have lengths := alike.length_eq.symm.trans left.length_eq
  cases List.append_inj_right' equal lengths
  exact ⟨_, again, same.symm⟩

theorem seq_of_leads
    (firstReads : Reads takeLexeme Rule.body first input (some (nodes, between)))
    (secondReads : Reads takeLexeme Rule.body second between (some (others, rest)))
    (firstCarries : Carries next first input nodes between)
    (secondCarries : Carries later second between others rest)
    (leads : ∀ {one more found : List Node} {before behind back : List Lexeme},
      Rewords nodes one before → Rewords others more behind → (one ++ more).IsChain LeavesBlock →
      List.Forall₂ Lexeme.Alike rest back →
      Reads takeLexeme Rule.body second (behind ++ back) (some (found, back)) →
      found.map Node.frame = others.map Node.frame → later back → next (behind ++ back)) :
    Carries later (.seq first second) input (nodes ++ others) rest := by
  intro plain new front back rewords alike holds
  have leaves := rewords.leaves
  rcases rewords.split with ⟨one, more, before, behind, rfl, rfl, firstRewords, secondRewords⟩
  have plainBehind := firstReads.forall_rest plain
  rcases secondCarries plainBehind more behind back secondRewords alike holds with
    ⟨_, secondAgain, same⟩
  rcases firstCarries plain one before (behind ++ back) firstRewords
    (secondReads.input_alike plainBehind secondRewords alike)
    (leads firstRewords secondRewords leaves alike secondAgain same holds) with
    ⟨_, firstAgain, sameFirst⟩
  rw [List.append_assoc]
  exact ⟨_, .seq firstAgain secondAgain, by rw [List.map_append, List.map_append, sameFirst, same]⟩

theorem seq (firstReads : Reads takeLexeme Rule.body first input (some (nodes, between)))
    (secondReads : Reads takeLexeme Rule.body second between (some (others, rest)))
    (firstCarries : Carries Anything first input nodes between)
    (secondCarries : Carries later second between others rest) :
    Carries later (.seq first second) input (nodes ++ others) rest :=
  seq_of_leads firstReads secondReads firstCarries secondCarries fun _ _ _ _ _ _ _ => trivial

theorem rule {name : Rule} (carries : Carries next (Rule.body name) input nodes rest) :
    Carries next (.rule name) input nodes rest := by
  intro plain new front back rewords alike holds
  rcases carries plain new front back rewords alike holds with ⟨_, again, same⟩
  exact ⟨_, .rule again, same⟩

theorem branch {kind : Kind} (carries : Carries next part input nodes rest) :
    Carries next (.branch kind part) input [Grammar.grow kind nodes] rest := by
  intro plain new front back rewords alike holds
  rcases rewords.of_grow with ⟨node, rfl, below⟩
  rcases carries plain node.children front back below alike holds with ⟨found, again, same⟩
  refine ⟨_, .branch again, ?_⟩
  rw [List.map_singleton, List.map_singleton, takeLexeme_agree_of_alike.grow kind same]

theorem choice_first (carries : Carries next first input nodes rest) :
    Carries next (.choice first second) input nodes rest := by
  intro plain new front back rewords alike holds
  rcases carries plain new front back rewords alike holds with ⟨_, again, same⟩
  exact ⟨_, .choiceFirst again, same⟩

theorem choice_second (carries : Carries next second input nodes rest)
    (apart : ∀ {changed left : List Lexeme} {found : List Node},
      Reads takeLexeme Rule.body second changed (some (found, left)) →
      Reads takeLexeme Rule.body first changed none) :
    Carries next (.choice first second) input nodes rest := by
  intro plain new front back rewords alike holds
  rcases carries plain new front back rewords alike holds with ⟨_, again, same⟩
  exact ⟨_, .choiceSecond (apart again) again, same⟩

theorem optional (reads : Reads takeLexeme Rule.body (.optional part) input (some (nodes, rest)))
    (present : Reads takeLexeme Rule.body part input (some (nodes, rest)) →
      Carries next part input nodes rest)
    (absent : Reads takeLexeme Rule.body part input none → nodes = [] → rest = input →
      ∀ back, List.Forall₂ Lexeme.Alike rest back → next back →
        Reads takeLexeme Rule.body part back none) :
    Carries next (.optional part) input nodes rest := by
  intro plain new front back rewords alike holds
  rcases reads.of_optional with someReads | ⟨missing, rfl, rfl⟩
  · rcases present someReads plain new front back rewords alike holds with ⟨_, again, same⟩
    exact ⟨_, .optional again, same⟩
  · rcases rewords.of_nil with ⟨-, rfl⟩
    exact ⟨_, .optional (absent missing rfl rfl back alike holds), rfl⟩

theorem many_of_leads {next : List Node → List Lexeme → Prop} {size : Nat}
    (takes : part.mayTakeNothing Rule.mayBeEmpty = false) (small : input.length ≤ size)
    (each : ∀ {input between : List Lexeme} {one : List Node}, input.length ≤ size →
      Reads takeLexeme Rule.body part input (some (one, between)) →
      Carries (next one) part input one between)
    (leads : ∀ {changed back : List Lexeme} {one left found : List Node},
      Reads takeLexeme Rule.body (.many part) changed (some (found, back)) →
      found.map Node.frame = left.map Node.frame → next (one ++ left) back → next one changed)
    (inner : ∀ {back : List Lexeme} {one left : List Node}, next (one ++ left) back →
      next left back)
    (ends : ∀ back, List.Forall₂ Lexeme.Alike rest back → Reads takeLexeme Rule.body part back none)
    (reads : Reads takeLexeme Rule.body (.many part) input (some (nodes, rest))) :
    Carries (next nodes) (.many part) input nodes rest := by
  induction length : input.length using Nat.strongRecOn generalizing input nodes with
  | ind length induction =>
    subst length
    rcases reads.of_many with ⟨-, rfl, rfl⟩ | ⟨one, between, left, rfl, partReads, moreReads⟩
    · intro _ _ front back rewords alike _
      rcases rewords.of_nil with ⟨-, rfl⟩
      exact ⟨_, .manyEnd (ends back alike), rfl⟩
    · have shorter := (partReads.rest_length Rule.mayBeEmpty_sound).2 takes
      have more := induction between.length shorter (Nat.le_trans (Nat.le_of_lt shorter) small)
        moreReads rfl
      have both := seq_of_leads partReads moreReads (each small partReads)
        (more.mono fun _ => inner)
        fun _ _ _ _ => leads
      intro plain new front back rewords alike holds
      rcases both plain new front back rewords alike holds with ⟨found, again, same⟩
      rcases again.of_seq with ⟨_, _, _, rfl, firstAgain, moreAgain⟩
      exact ⟨_, .manyMore firstAgain moreAgain, same⟩

theorem many {size : Nat} (takes : part.mayTakeNothing Rule.mayBeEmpty = false)
    (small : input.length ≤ size)
    (each : ∀ {input between : List Lexeme} {one : List Node}, input.length ≤ size →
      Reads takeLexeme Rule.body part input (some (one, between)) →
      Carries Anything part input one between)
    (ends : ∀ back, List.Forall₂ Lexeme.Alike rest back → Reads takeLexeme Rule.body part back none)
    (reads : Reads takeLexeme Rule.body (.many part) input (some (nodes, rest))) :
    Carries next (.many part) input nodes rest :=
  (many_of_leads takes small each (fun _ _ => id) id ends reads).mono fun _ _ => trivial

end Carries

/-! ## Supertypes -/

theorem keyword_carries {word : String}
    (reads : Reads takeLexeme Rule.body (keyword word) input (some (nodes, rest))) :
    Carries next (keyword word) input nodes rest := by
  intro plain _ front back rewords alike _
  rcases reads.of_token with ⟨token, kind, rfl, accepted, rfl⟩
  have isKeyword : kind = .keyword := by
    cases tokenClass : token.tokenClass <;> simp [Wanted.accepts, tokenClass] at accepted
    exact accepted.2.symm
  cases rewords.words with
  | cons here nothing =>
      cases nothing
      rcases here with ⟨otherPlain, same | ⟨isIdentifier, -⟩⟩
      · have shape := Lexeme.shape_eq_of_text otherPlain (plain token List.mem_cons_self) same
        exact ⟨_, .token_of_accepts ((accepts_of_shape shape _).trans accepted) back, rfl⟩
      · cases isKeyword.symm.trans isIdentifier

theorem supertypes_carries
    (reads : Reads takeLexeme Rule.body (.rule .supertypes) input (some (nodes, rest))) :
    Carries next (.rule .supertypes) input nodes rest := by
  rcases reads.of_rule.of_seq with ⟨_, _, _, rfl, wordReads, typesRead⟩
  refine .rule (.seq wordReads typesRead ?_ (.of_blind (by decide) typesRead))
  rcases wordReads.of_choice with ⟨-, extendsReads⟩ | ⟨-, others⟩
  · exact .choice_first (keyword_carries extendsReads)
  · refine .choice_second ?_ fun again => .token_of_none (again.refuses_of_takes (by decide) rfl)
    rcases others.of_choice with ⟨-, implementsReads⟩ | ⟨-, permitsReads⟩
    · exact .choice_first (keyword_carries implementsReads)
    · exact .choice_second (keyword_carries permitsReads) fun again =>
        .token_of_none (again.refuses_of_takes (by decide) rfl)

theorem takes_brace {name : Rule} {part : Grammar Rule}
    (is : Rule.body name = .branch .block (.seq (punctuation "\x7b") part))
    (reads : Reads takeLexeme Rule.body (.rule name) input (some (nodes, rest))) :
    (takeLexeme (.punctuation "\x7b") input).isSome = true := by
  rw [shows_of_braces is reads]
  decide

theorem allSupertypes_carries
    (reads : Reads takeLexeme Rule.body (.many (.rule .supertypes)) input (some (nodes, rest)))
    (brace : (takeLexeme (.punctuation "\x7b") rest).isSome = true) :
    Carries next (.many (.rule .supertypes)) input nodes rest :=
  .many rfl (Nat.le_refl _) (fun _ partReads => supertypes_carries partReads)
    (fun _ alike => none_of_alike_apart rfl brace (by decide) rfl alike) reads

/-! ## Bodies -/

/-- Members up to some size are read again. -/
def MembersCarry (size : Nat) : Prop :=
  ∀ {input rest : List Lexeme} {nodes : List Node}, input.length < size →
    Reads takeLexeme Rule.body (.rule .member) input (some (nodes, rest)) →
    Carries Anything (.rule .member) input nodes rest

theorem members_carry {size : Nat} (members : MembersCarry size) (small : input.length < size)
    (reads : Reads takeLexeme Rule.body (.many (.rule .member)) input (some (nodes, rest)))
    (brace : (takeLexeme (.punctuation "\x7d") rest).isSome = true) :
    Carries next (.many (.rule .member)) input nodes rest := by
  cases size with
  | zero => exact absurd small (Nat.not_lt_zero _)
  | succ bound =>
      exact .many rfl (Nat.le_of_lt_succ small)
        (fun shorter memberReads => members (Nat.lt_succ_of_le shorter) memberReads)
        (fun _ alike => none_of_alike_apart rfl brace (by decide) rfl alike) reads

theorem classBody_carries {size : Nat} (members : MembersCarry size) (small : input.length ≤ size)
    (reads : Reads takeLexeme Rule.body (.rule .classBody) input (some (nodes, rest))) :
    Carries next (.rule .classBody) input nodes rest := by
  rcases reads.of_rule.of_branch with ⟨_, partReads, rfl⟩
  refine .rule (.branch ?_)
  rcases partReads.of_seq with ⟨_, _, _, rfl, openingReads, behind⟩
  rcases behind.of_seq with ⟨_, _, _, rfl, membersRead, closingReads⟩
  have shorter := (openingReads.rest_length Rule.mayBeEmpty_sound).2 rfl
  exact .seq openingReads behind (.of_blind rfl openingReads) (.seq membersRead closingReads
    (members_carry members (Nat.lt_of_lt_of_le shorter small) membersRead
      (takes_of_reads closingReads)) (.of_blind rfl closingReads))

/-! ## Values -/

theorem noValue_of_alike (no : NoValue input) (alike : List.Forall₂ Lexeme.Alike input other) :
    NoValue other := by
  rcases no.of_rule.of_branch_none.of_seq_none with never | ⟨_, _, allReads, behind⟩
  · exact absurd never Reads.not_many_none
  · rcases allReads.of_alike (by decide) alike with ⟨_, again, ⟨⟩ | ⟨-, alikeBehind⟩⟩
    refine .rule (.branch (.seq_none again ?_))
    rcases behind.of_seq_none with noName | ⟨_, _, -, more⟩
    · exact .seqNone (noName.none_of_alike rfl alikeBehind)
    · rcases more.of_seq_none with never | ⟨_, _, -, never⟩
      · exact absurd never Reads.not_optional_none
      · exact absurd never Reads.not_optional_none

def StaysBare (values : List Node) (back : List Lexeme) : Prop :=
  ∀ value ∈ values.getLast?, IsBare value → NoBody back

namespace StaysBare

theorem of_refuses (refuses : Refuses "\x7b" back) : StaysBare nodes back :=
  fun _ _ _ => noBody_of_refuses refuses

theorem of_append (bare : StaysBare (nodes ++ others) back) : StaysBare others back := by
  intro value last
  refine bare value ?_
  rw [List.getLast?_append]
  rw [Option.mem_def] at last ⊢
  rw [last]
  rfl

theorem of_comma {left : List Node}
    (cases : Refuses "\x7b" other ∨ others = [] ∧ other = back)
    (same : others.map Node.frame = left.map Node.frame) (bare : StaysBare (nodes ++ left) back) :
    StaysBare nodes other := by
  rcases cases with refuses | ⟨rfl, rfl⟩
  · exact .of_refuses refuses
  · rw [List.map_nil, eq_comm, List.map_eq_nil_iff] at same
    rwa [same, List.append_nil] at bare

end StaysBare

def Rule.besideBody (rule : Rule) : Bool :=
  [annotationUse, qualifiedName, parenGroup, group, groupItem].contains rule

theorem Rule.grows_besideBody (name : Rule) (beside : name.besideBody = true) :
    (body name).Grows (· ≠ .block) besideBody = true := by
  revert beside
  cases name <;> decide

theorem noBlock_of_reads (grows : grammar.Grows (· ≠ .block) Rule.besideBody = true)
    (reads : Reads takeLexeme Rule.body grammar input (some (nodes, rest))) :
    ∀ node ∈ nodes, node.kind ≠ .block := by
  rcases reads.yields rfl with ⟨taken, -, yields⟩
  intro node member isBlock
  rcases yields.kinds Rule.grows_besideBody grows node member with isToken | other
  · rw [isBlock] at isToken
    cases isToken
  · exact of_decide_eq_true other isBlock

theorem enumValue_carries {size : Nat} (members : MembersCarry size) (small : input.length ≤ size)
    (reads : Reads takeLexeme Rule.body (.rule .enumValue) input (some (nodes, rest))) :
    Carries (StaysBare nodes) (.rule .enumValue) input nodes rest := by
  rcases reads.of_rule.of_branch with ⟨_, partReads, rfl⟩
  refine .rule (.branch ?_)
  rcases partReads.of_seq with ⟨annotations, _, _, rfl, annotationsRead, named⟩
  rcases named.of_seq with ⟨name, _, _, rfl, nameReads, behind⟩
  rcases behind.of_seq with ⟨arguments, beforeBody, body, rfl, argumentsRead, bodyReads⟩
  have short : beforeBody.length ≤ size := by
    have one := (annotationsRead.rest_length Rule.mayBeEmpty_sound).1
    have two := (nameReads.rest_length Rule.mayBeEmpty_sound).1
    have three := (argumentsRead.rest_length Rule.mayBeEmpty_sound).1
    omega
  refine .seq annotationsRead named (.of_blind (by decide) annotationsRead)
    (.seq nameReads behind (.of_blind rfl nameReads)
      (.seq argumentsRead bodyReads (.of_blind (by decide) argumentsRead) ?_))
  refine .optional bodyReads (fun someReads => classBody_carries members short someReads)
    fun _ noNodes _ back _ bare => bare _ rfl ⟨rfl, ?_⟩
  subst noNodes
  rw [List.append_nil]
  exact noBlock_of_reads (by decide) (.seq annotationsRead (.seq nameReads argumentsRead))

theorem nextValue_none_of_alike (reads : Reads takeLexeme Rule.body nextValue input none)
    (alike : List.Forall₂ Lexeme.Alike input other) :
    Reads takeLexeme Rule.body nextValue other none := by
  rcases reads.of_seq_none with noComma | ⟨_, _, commaReads, noValue⟩
  · exact .seqNone (noComma.none_of_alike rfl alike)
  · rcases commaReads.of_alike rfl alike with ⟨_, again, ⟨⟩ | ⟨-, alikeBehind⟩⟩
    exact .seq_none again (noValue_of_alike noValue alikeBehind)

theorem nextValues_cases
    (reads : Reads takeLexeme Rule.body (.many nextValue) input (some (nodes, rest))) :
    Refuses "\x7b" input ∨ nodes = [] ∧ input = rest := by
  rcases reads.of_many with ⟨-, rfl, rfl⟩ | ⟨_, _, _, -, nextReads, -⟩
  · exact .inr ⟨rfl, rfl⟩
  · exact .inl (nextReads.refuses_of_takes (by decide) rfl)

theorem optionalComma_cases
    (reads : Reads takeLexeme Rule.body (.optional (punctuation ",")) input (some (nodes, rest))) :
    Refuses "\x7b" input ∨ nodes = [] ∧ input = rest := by
  rcases reads.of_optional with someReads | ⟨-, rfl, rfl⟩
  · exact .inl (someReads.refuses_of_takes (by decide) rfl)
  · exact .inr ⟨rfl, rfl⟩

theorem enumValues_carries {size : Nat} (members : MembersCarry size) (small : input.length ≤ size)
    (reads : Reads takeLexeme Rule.body (.rule .enumValues) input (some (nodes, rest))) :
    Carries (StaysBare nodes) (.rule .enumValues) input nodes rest := by
  rcases reads.of_rule.of_seq with ⟨_, behindLast, comma, rfl, separatedReads, commaReads⟩
  rcases separatedReads.of_seq with ⟨firstNodes, behindFirst, moreNodes, rfl, firstReads, moreReads⟩
  have short := Nat.le_trans (firstReads.rest_length Rule.mayBeEmpty_sound).1 small
  have more : Carries (StaysBare moreNodes) (.many nextValue) behindFirst moreNodes behindLast := by
    refine .many_of_leads rfl short (fun shorter nextReads => ?_)
      (fun again same bare => .of_comma (nextValues_cases again) same bare) .of_append
      (fun _ alike => nextValue_none_of_alike moreReads.none_behind_many alike) moreReads
    rcases nextReads.of_seq with ⟨_, _, _, rfl, commaReads, valueReads⟩
    have less := (commaReads.rest_length Rule.mayBeEmpty_sound).1
    exact .seq commaReads valueReads (.of_blind rfl commaReads)
      ((enumValue_carries members (Nat.le_trans less shorter) valueReads).mono fun _ => .of_append)
  have values : Carries (StaysBare (firstNodes ++ moreNodes))
      (separated "," (.rule .enumValue)) input
      (firstNodes ++ moreNodes) behindLast :=
    .seq_of_leads firstReads moreReads (enumValue_carries members small firstReads)
      (more.mono fun _ => .of_append)
      fun _ _ _ _ again same bare => .of_comma (nextValues_cases again) same bare
  exact .rule (.seq_of_leads separatedReads commaReads values (.of_blind rfl commaReads)
    fun _ _ _ _ again same bare => StaysBare.of_comma (optionalComma_cases again) same bare)

theorem isBare_of_frame {node value : Node} (same : node.frame = value.frame)
    (bare : IsBare value) :
    IsBare node := by
  have kinds := Node.map_kind_of_frames (Node.children_of_frame same)
  refine ⟨(Node.kind_of_frame same).trans bare.1, fun child member isBlock => ?_⟩
  have inside : Kind.block ∈ value.children.map (·.kind) := by
    rw [← kinds, ← isBlock]
    exact List.mem_map_of_mem member
  rcases List.mem_map.1 inside with ⟨other, otherMember, otherBlock⟩
  exact bare.2 other otherMember otherBlock

/-- Members behind a value without a body do not become one: what could be the body of the value
would be their first block. -/
theorem staysBare_of_members {values one more found : List Node} {before behind : List Lexeme}
    (valuesReword : Rewords values one before) (membersReword : Rewords others more behind)
    (leaves : (one ++ more).IsChain LeavesBlock) (plain : ∀ token ∈ back, token.Plain)
    (reads : Reads takeLexeme Rule.body (.optional Rule.semicolon >> Rule.all .member)
      (behind ++ back)
      (some (found, back)))
    (same : found.map Node.frame = others.map Node.frame) (refuses : Refuses "\x7b" back) :
    StaysBare values (behind ++ back) := by
  intro value last bare
  rcases Rule.exists_reads .classBody (behind ++ back) with ⟨reading, bodyReads⟩
  cases reading with
  | none => exact bodyReads
  | some outcome =>
      exfalso
      rcases outcome with ⟨inside, left⟩
      have brace := takes_brace rfl bodyReads
      have never (refuses : Refuses "\x7b" (behind ++ back)) : False := by
        rw [refuses] at brace
        cases brace
      rcases reads.of_seq with ⟨_, _, _, rfl, semicolonReads, membersRead⟩
      rcases semicolonReads.of_optional with someReads | ⟨-, rfl, rfl⟩
      · exact never (someReads.refuses_of_takes (by decide) rfl)
      rcases membersRead.of_many with ⟨-, rfl, atEnd⟩ | ⟨_, _, others', rfl, memberReads, -⟩
      · exact never (atEnd ▸ refuses)
      rcases member_cases memberReads with ⟨node, rfl, ⟨-, refuses⟩ | blockReads⟩
      · exact never refuses
      -- the first of the new members is that block
      have frames := membersReword.frames.trans same.symm
      rw [List.nil_append, List.singleton_append, List.map_cons, List.map_eq_cons_iff] at frames
      rcases frames with ⟨block, more, rfl, frame, -⟩
      have isBlock : block.kind = .block := by
        rcases blockReads.of_rule.of_branch with ⟨_, -, equal⟩
        rw [Node.kind_of_frame frame, (List.cons.inj equal).1]
        rfl
      have could : CouldBeBody block := by
        rcases couldBeBody_of_reads
          (List.forall_mem_append.2 ⟨membersReword.plain, plain⟩) blockReads
          bodyReads with ⟨taken, equal, plainTaken, fits⟩
        refine ⟨taken, _, plainTaken, ?_, fits⟩
        rcases blockReads.yields rfl with ⟨_, taken_, yields⟩
        rw [equal] at taken_
        cases List.append_cancel_right taken_
        have texts := congrArg (List.map (·.text)) equal
        rw [List.map_append, List.map_append, ← membersReword.texts,
          List.flatMap_cons, List.map_append, List.append_assoc] at texts
        have lengths : (block.tokens.map Prod.snd).length = (taken.map (·.text)).length := by
          have counts := congrArg List.length yields.tokens
          rw [← counts, List.length_map, List.length_map,
            ← List.flatMap_singleton Node.tokens block]
          exact Node.length_tokens_of_frames (congrArg ([·]) frame)
        exact (List.append_inj texts lengths).1.symm
      -- so the value in front of it leaves it
      have lastFrame := congrArg List.getLast? valuesReword.frames
      rw [List.getLast?_map, List.getLast?_map, Option.mem_def.1 last, Option.map_some,
        Option.map_eq_some_iff] at lastFrame
      rcases lastFrame with ⟨newValue, isLast, valueFrame⟩
      exact (List.isChain_append.1 leaves).2.2 newValue isLast block rfl
        (isBare_of_frame valueFrame bare) isBlock could

theorem enumBody_carries {size : Nat} (members : MembersCarry size) (small : input.length ≤ size)
    (reads : Reads takeLexeme Rule.body (.rule .enumBody) input (some (nodes, rest))) :
    Carries next (.rule .enumBody) input nodes rest := by
  rcases reads.of_rule.of_branch with ⟨_, partReads, rfl⟩
  refine .rule (.branch ?_)
  rcases partReads.of_seq with ⟨opening, inside, _, rfl, openingReads, behind⟩
  rcases behind.of_seq with ⟨_, _, closing, rfl, contentReads, closingReads⟩
  rcases contentReads.of_seq with ⟨valueNodes, behindValues, _, rfl, valuesRead, behindReads⟩
  rcases behindReads.of_seq with ⟨semicolon, behindSemicolon, memberNodes, rfl, semicolonReads,
    membersRead⟩
  have shorter := (openingReads.rest_length Rule.mayBeEmpty_sound).2 rfl
  have notLonger := (valuesRead.rest_length Rule.mayBeEmpty_sound).1
  have still := (semicolonReads.rest_length Rule.mayBeEmpty_sound).1
  have values : Carries (StaysBare valueNodes) (.optional (.rule .enumValues)) inside valueNodes
      behindValues := by
    refine .optional valuesRead (fun someReads => enumValues_carries members (by omega) someReads)
      fun missing _ here back alike _ => ?_
    subst here
    rcases missing.of_rule.of_seq_none with noValues | ⟨_, _, -, never⟩
    · rcases noValues.of_seq_none with noValue | ⟨_, _, -, never⟩
      · exact .rule (.seqNone (.seqNone (noValue_of_alike noValue alike)))
      · exact absurd never Reads.not_many_none
    · exact absurd never Reads.not_optional_none
  have membersCarried : Carries (Refuses "\x7b") (.optional Rule.semicolon >> Rule.all .member)
      behindValues (semicolon ++ memberNodes) _ :=
    .seq semicolonReads membersRead (.of_blind rfl semicolonReads)
      (members_carry members (by omega) membersRead (takes_of_reads closingReads))
  have content := Carries.seq_of_leads valuesRead behindReads values membersCarried
    fun one more leaves alike again same refuses =>
      staysBare_of_members one more leaves (plain_of_alike alike) again same refuses
  exact .seq openingReads behind (.of_blind rfl openingReads)
    (.seq_of_leads contentReads closingReads
    content (.of_blind rfl closingReads)
    fun _ _ _ _ again _ _ => again.refuses_of_takes (by decide) rfl)

/-! ## Declarations -/

theorem classDecl_carries {size : Nat} (members : MembersCarry size) (small : input.length ≤ size)
    (reads : Reads takeLexeme Rule.body (.rule .classDecl) input (some (nodes, rest))) :
    Carries next (.rule .classDecl) input nodes rest := by
  rcases reads.of_rule.of_choice with ⟨-, enumReads⟩ | ⟨-, typeReads⟩
  · refine .rule (.choice_first ?_)
    rcases enumReads.of_branch with ⟨_, partReads, rfl⟩
    refine .branch ?_
    rcases partReads.of_seq with ⟨_, _, _, rfl, modifiersRead, coreReads⟩
    rcases coreReads.of_seq with ⟨_, _, _, rfl, wordReads, named⟩
    rcases named.of_seq with ⟨_, _, _, rfl, nameReads, behindName⟩
    rcases behindName.of_seq with ⟨_, _, _, rfl, supertypesRead, bodyReads⟩
    have one := (modifiersRead.rest_length Rule.mayBeEmpty_sound).1
    have two := (wordReads.rest_length Rule.mayBeEmpty_sound).1
    have three := (nameReads.rest_length Rule.mayBeEmpty_sound).1
    have four := (supertypesRead.rest_length Rule.mayBeEmpty_sound).1
    exact .seq modifiersRead coreReads (.of_blind rfl modifiersRead) (.seq wordReads named
      (.of_blind rfl wordReads) (.seq nameReads behindName (.of_blind rfl nameReads)
        (.seq supertypesRead bodyReads
          (allSupertypes_carries supertypesRead (takes_brace rfl bodyReads))
          (enumBody_carries members (by omega) bodyReads))))
  · refine .rule (.choice_second ?_ fun again => none_of_declared again enumCore_none_of_typeCore)
    rcases typeReads.of_branch with ⟨_, partReads, rfl⟩
    refine .branch ?_
    rcases partReads.of_seq with ⟨_, _, _, rfl, modifiersRead, coreReads⟩
    rcases coreReads.of_seq with ⟨_, _, _, rfl, wordReads, named⟩
    rcases named.of_seq with ⟨_, _, _, rfl, nameReads, behindName⟩
    rcases behindName.of_seq with ⟨_, _, _, rfl, parametersRead, behindParameters⟩
    rcases behindParameters.of_seq with ⟨_, _, _, rfl, supertypesRead, bodyReads⟩
    have one := (modifiersRead.rest_length Rule.mayBeEmpty_sound).1
    have two := (wordReads.rest_length Rule.mayBeEmpty_sound).1
    have three := (nameReads.rest_length Rule.mayBeEmpty_sound).1
    have four := (parametersRead.rest_length Rule.mayBeEmpty_sound).1
    have five := (supertypesRead.rest_length Rule.mayBeEmpty_sound).1
    exact .seq modifiersRead coreReads (.of_blind rfl modifiersRead) (.seq wordReads named
      (.of_blind rfl wordReads) (.seq nameReads behindName (.of_blind rfl nameReads)
        (.seq parametersRead behindParameters (.of_blind rfl parametersRead)
          (.seq supertypesRead bodyReads
            (allSupertypes_carries supertypesRead (takes_brace rfl bodyReads))
            (classBody_carries members (by omega) bodyReads)))))

theorem membersCarry (size : Nat) : MembersCarry size := by
  induction size with
  | zero => exact fun small => absurd small (Nat.not_lt_zero _)
  | succ size induction =>
      intro input rest nodes small reads
      refine .rule ?_
      rcases reads.of_rule.of_choice with ⟨-, classReads⟩ | ⟨-, others⟩
      · exact .choice_first (classDecl_carries induction (Nat.le_of_lt_succ small) classReads)
      · exact .choice_second (.of_blind rfl others) classDecl_none_of_others

/-! ## Files -/

theorem topLevel_carries
    (reads : Reads takeLexeme Rule.body (.rule .topLevel) input (some (nodes, rest))) :
    Carries next (.rule .topLevel) input nodes rest := by
  rcases reads.of_rule.of_choice with ⟨-, classReads⟩ | ⟨-, semicolonReads⟩
  · exact .rule (.choice_first (classDecl_carries (membersCarry _) (Nat.le_refl _) classReads))
  · exact .rule (.choice_second (.of_blind rfl semicolonReads) classDecl_none_of_semicolon)

theorem compilationUnit_carries
    (reads : Reads takeLexeme Rule.body (.rule .compilationUnit) input (some (nodes, rest))) :
    Carries next (.rule .compilationUnit) input nodes rest := by
  rcases reads.of_rule.of_branch with ⟨_, partReads, rfl⟩
  refine .rule (.branch ?_)
  rcases partReads.of_seq with ⟨_, _, _, rfl, packageReads, behind⟩
  rcases behind.of_seq with ⟨_, _, _, rfl, importsRead, behindImports⟩
  rcases behindImports.of_seq with ⟨_, _, _, rfl, typesRead, endReads⟩
  exact .seq packageReads behind (.of_blind rfl packageReads) (.seq importsRead behindImports
    (.of_blind rfl importsRead) (.seq typesRead endReads (.many rfl (Nat.le_refl _)
      (fun _ typeReads => topLevel_carries typeReads) (fun _ alike => none_of_alike_apart rfl
        (takes_of_reads endReads) (by decide) rfl alike) typesRead)
          (.of_blind rfl endReads)))

end

end Verbatim.Java
