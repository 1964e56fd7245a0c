import Verbatim.Proofs.Java.Exchanging

/-! Bodies with one member more. In front of the brace that closes the body of a type there is
room for any member that neither goes on what stands in front of it nor could be taken for a
part of it; and the token in front of the brace is one that nothing is lost behind. -/

namespace Verbatim.Java

open Grammar (punctuation enclosed)

/-! ## Last tokens -/

/-- Whatever tokens are taken, the last of them is one of these. -/
def Grammar.Closes (tokens : Wanted → Bool) (rules : Rule → Bool) : Grammar Rule → Bool
  | .token wanted => tokens wanted
  | .seq first second =>
    second.Closes tokens rules &&
      (!second.mayTakeNothing Rule.mayBeEmpty || first.Closes tokens rules)
  | .choice first second => first.Closes tokens rules && second.Closes tokens rules
  | .ifFits first next other =>
    next.Closes tokens rules &&
      (!next.mayTakeNothing Rule.mayBeEmpty || first.Closes tokens rules) &&
      other.Closes tokens rules
  | .optional part | .many part | .branch _ part => part.Closes tokens rules
  | .ahead _ | .notAhead _ => true
  | .rule name => rules name

theorem Yields.closes {tokens : Wanted → Bool} {rules : Rule → Bool}
    (closed : ∀ name, rules name = true → (Rule.body name).Closes tokens rules = true)
    {grammar : Grammar Rule} {taken : List Lexeme} {nodes : List Node}
    (yields : Yields Rule.body grammar taken nodes) (closes : grammar.Closes tokens rules = true) :
    taken = [] ∨ ∃ start last wanted, taken = start ++ [last] ∧ tokens wanted = true ∧
      (wanted.accepts last).isSome = true := by
  -- the last token is taken by the second of two parts, or the second one takes nothing
  have behind {first second : Grammar Rule} {front back : List Lexeme} {others : List Node}
      (closes : (second.Closes tokens rules &&
        (!second.mayTakeNothing Rule.mayBeEmpty || first.Closes tokens rules)) = true)
      (secondYields : Yields Rule.body second back others)
      (inFirst : first.Closes tokens rules = true → front = [] ∨ ∃ start last wanted,
        front = start ++ [last] ∧ tokens wanted = true ∧ (wanted.accepts last).isSome = true)
      (inSecond : second.Closes tokens rules = true → back = [] ∨ ∃ start last wanted,
        back = start ++ [last] ∧ tokens wanted = true ∧ (wanted.accepts last).isSome = true) :
      front ++ back = [] ∨ ∃ start last wanted, front ++ back = start ++ [last] ∧
        tokens wanted = true ∧ (wanted.accepts last).isSome = true := by
    rw [Bool.and_eq_true, Bool.or_eq_true] at closes
    rcases inSecond closes.1 with rfl | ⟨start, last, wanted, rfl, isWanted, accepted⟩
    · have nothing := secondYields.mayTakeNothing Rule.mayBeEmpty_sound rfl
      rw [nothing] at closes
      rw [List.append_nil]
      exact inFirst (closes.2.resolve_left Bool.false_ne_true)
    · exact .inr ⟨front ++ start, last, wanted, (List.append_assoc ..).symm, isWanted, accepted⟩
  induction yields with
  | @token wanted lexeme _ accepted =>
      exact .inr ⟨[], lexeme, wanted, rfl, closes, Option.isSome_of_eq_some accepted⟩
  | seq _ secondYields first second => exact behind closes secondYields first second
  | choiceFirst _ first =>
      rw [Grammar.Closes, Bool.and_eq_true] at closes
      exact first closes.1
  | choiceSecond _ second =>
      rw [Grammar.Closes, Bool.and_eq_true] at closes
      exact second closes.2
  | fits _ nextYields first next =>
      rw [Grammar.Closes, Bool.and_eq_true] at closes
      exact behind closes.1 nextYields first next
  | fitsNot _ other =>
      rw [Grammar.Closes, Bool.and_eq_true] at closes
      exact other closes.2
  | optional _ part => exact part closes
  | optionalNone => exact .inl rfl
  | manyEnd => exact .inl rfl
  | manyMore _ moreYields part more =>
      exact behind (Bool.and_eq_true_iff.2 ⟨closes, Bool.or_eq_true_iff.2 (.inr closes)⟩) moreYields
        part more
  | ahead => exact .inl rfl
  | notAhead => exact .inl rfl
  | branch _ part => exact part closes
  | @rule name _ _ _ part => exact part (closed name closes)

/-- What stands at the end of members and values. -/
def Wanted.isCloser : Wanted → Bool
  | identifier => true
  | punctuation text => ["\x7b", "\x7d", ";", ",", ")"].contains text
  | _ => false

/-- A token at the end of a member or a value. -/
def Lexeme.IsCloser (token : Lexeme) : Prop :=
  ∃ wanted : Wanted, wanted.isCloser = true ∧ (wanted.accepts token).isSome = true

def Rule.endsMembers (rule : Rule) : Bool :=
  [member, classDecl, classBody, enumBody, enumValues, enumValue, methodDecl, methodBody, fieldDecl,
    initializer, block, parenGroup].contains rule

theorem Rule.endsMembers_body (name : Rule) (inside : name.endsMembers = true) :
    (body name).Closes Wanted.isCloser endsMembers = true := by
  revert name
  decide

theorem exists_closer {grammar : Grammar Rule} {input rest : List Lexeme} {nodes : List Node}
    (closes : grammar.Closes Wanted.isCloser Rule.endsMembers = true)
    (takes : grammar.mayTakeNothing Rule.mayBeEmpty = false)
    (reads : Reads takeLexeme Rule.body grammar input (some (nodes, rest))) :
    ∃ start last, input = start ++ last :: rest ∧ last.IsCloser ∧
      (nodes.flatMap Node.tokens).map Prod.snd = start.map (·.text) ++ [last.text] := by
  rcases reads.yields rfl with ⟨taken, rfl, yields⟩
  rcases yields.closes Rule.endsMembers_body closes with
    rfl | ⟨start, last, wanted, rfl, isCloser, accepted⟩
  · have nothing := yields.mayTakeNothing Rule.mayBeEmpty_sound rfl
    rw [takes] at nothing
    cases nothing
  · refine ⟨start, last, List.append_assoc .., ⟨wanted, isCloser, accepted⟩, ?_⟩
    rw [yields.tokens, List.map_append, List.map_singleton]

/-! ## One member more -/

/-- Tokens of a member that is read as this node whatever stands behind it, and that neither a value
nor a part of one can begin with. -/
structure MadeMember (made : List Lexeme) (node : Node) : Prop where
  reads : ∀ other, Reads takeLexeme Rule.body (.rule .member) (made ++ other) (some ([node], other))
  keeps : ∀ input other, Keeps input (made ++ other)

section

variable {made input rest between : List Lexeme} {node : Node} {nodes : List Node} {name : Rule}

theorem MadeMember.many (member : MadeMember made node)
    (reads : Reads takeLexeme Rule.body (.many (.rule .member)) input (some (nodes, rest))) :
    ∃ taken, input = taken ++ rest ∧
      Reads takeLexeme Rule.body (.many (.rule .member)) (taken ++ (made ++ rest))
        (some (nodes ++ [node], rest)) ∧
      Keeps input (taken ++ (made ++ rest)) := by
  have last : Reads takeLexeme Rule.body (.many (.rule .member)) (made ++ rest)
      (some ([node], rest)) :=
    .manyMore (member.reads rest) (.manyEnd reads.none_behind_many)
  rcases reads.of_many with ⟨-, rfl, rfl⟩ | ⟨_, between, others, rfl, firstReads, moreReads⟩
  · exact ⟨[], rfl, last, member.keeps rest rest⟩
  · rcases fits_of_thins (membersThin onlyAnnotations_none _ (Nat.lt_succ_self _) firstReads)
      ⟨[], trivial⟩ firstReads with ⟨first, rfl, fits⟩
    rcases settled_member.many_append moreReads with ⟨later, rfl, goesOn⟩
    rcases fits (later ++ (made ++ rest)) trivial with ⟨firstAgain, keeps⟩
    refine ⟨first ++ later, (List.append_assoc ..).symm, ?_⟩
    rw [List.append_assoc first, List.append_assoc _ others]
    exact ⟨.manyMore firstAgain (goesOn last), keeps⟩

/-- What stands between the braces of a body. -/
def Rule.content : Rule → Body
  | enumBody => open? enumValues >> .optional semicolon >> all member
  | _ => all member

theorem content_enlarged (isBody : name.isTypeBody = true) (member : MadeMember made node)
    {closing : List Node}
    (reads : Reads takeLexeme Rule.body name.content input (some (nodes, between)))
    (closingReads : Reads takeLexeme Rule.body (punctuation "\x7d") between
      (some (closing, rest))) :
    ∃ taken, input = taken ++ between ∧ Reads takeLexeme Rule.body name.content
      (taken ++ (made ++ between)) (some (nodes ++ [node], between)) := by
  cases name with
  | classBody =>
      rcases member.many reads with ⟨taken, split, again, -⟩
      exact ⟨taken, split, again⟩
  | enumBody =>
      rcases reads.of_seq with ⟨values, behindValues, _, rfl, valuesRead, behindReads⟩
      rcases behindReads.of_seq with
        ⟨semicolon, behindSemicolon, _, rfl, semicolonReads, membersRead⟩
      rcases member.many membersRead with ⟨taken, rfl, again, keeps⟩
      have front : Thins (fun _ => false) (EndsValues (taken ++ between)) Anything _ input _
          (taken ++ between) :=
        (optionalValues_thins onlyAnnotations_none (membersThin onlyAnnotations_none _)
          (Nat.le_refl _) valuesRead).seq (semicolon_thins onlyAnnotations_none semicolonReads)
          fun _ ends => ends
      have ends := endsValues_of_members (@endsMembers_of_closing [] _ _ _ closingReads) again keeps
      rcases fits_of_thins front ⟨_, ends⟩ (.seq valuesRead semicolonReads) with ⟨start, rfl, fits⟩
      have whole := (Reads.seq (fits _ ends).1 again).assoc
      refine ⟨start ++ taken, (List.append_assoc ..).symm, ?_⟩
      rw [List.append_assoc, ← List.append_assoc values, List.append_assoc (values ++ semicolon)]
      exact whole
  | _ => cases isBody

theorem body_eq_enclosed (isBody : name.isTypeBody = true) :
    Rule.body name = .branch .block (enclosed "\x7b" "\x7d" name.content) := by
  cases name <;> first | rfl | cases isBody

theorem content_closes (isBody : name.isTypeBody = true) :
    name.content.Closes Wanted.isCloser Rule.endsMembers = true := by
  revert name
  decide

/-- A block with room in front of the brace that closes it. What is in it ends in a token that
nothing is lost behind, and whatever member is made can stand in between. -/
structure HasRoom (input : List Lexeme) (block : Node)
    (again : List Lexeme → Node → Prop) : Prop where
  exists_brace : ∃ (head : List Node) (brace closer : Lexeme) (start : List String),
    block = Grammar.grow .block (head ++ [brace.node .punctuation]) ∧
    (Wanted.punctuation "\x7d").accepts brace = some .punctuation ∧
    closer ∈ input ∧ closer.IsCloser ∧
    (head.flatMap Node.tokens).map Prod.snd = start ++ [closer.text] ∧
    ∀ {made : List Lexeme} {node : Node}, MadeMember made node →
      ∃ left, (∀ token ∈ left, token ∈ input ∨ token ∈ made) ∧
        again left (Grammar.grow .block (head ++ [node, brace.node .punctuation]))

theorem HasRoom.behind {block : Node} {again later : List Lexeme → Node → Prop}
    (room : HasRoom input block again) (front : List Lexeme)
    (tells : ∀ left other, again left other → later (front ++ left) other) :
    HasRoom (front ++ input) block later := by
  rcases room.exists_brace with
    ⟨head, brace, closer, start, is, isBrace, inside, isCloser, texts, enlarged⟩
  refine ⟨head, brace, closer, start, is, isBrace, List.mem_append_right _ inside, isCloser, texts,
    fun made => ?_⟩
  rcases enlarged made with ⟨left, known, reads⟩
  refine ⟨front ++ left, fun token member => ?_, tells _ _ reads⟩
  rcases List.mem_append.1 member with inFront | inLeft
  · exact .inl (List.mem_append_left _ inFront)
  · exact (known token inLeft).imp (List.mem_append_right _) id

theorem hasRoom_of_body (isBody : name.isTypeBody = true)
    (reads : Reads takeLexeme Rule.body (.rule name) input (some (nodes, rest))) :
    ∃ block, nodes = [block] ∧
      HasRoom input block fun left other =>
        Reads takeLexeme Rule.body (.rule name) left (some ([other], rest)) := by
  have bodyReads := reads.of_rule
  rw [body_eq_enclosed isBody] at bodyReads
  rcases bodyReads.of_branch with ⟨_, partReads, rfl⟩
  rcases partReads.of_seq with ⟨opening, opened, _, rfl, openingReads, behindReads⟩
  rcases behindReads.of_seq with ⟨inner, between, _, rfl, contentReads, closingReads⟩
  rcases closingReads.of_token with ⟨brace, _, rfl, isBrace, rfl⟩
  rcases openingReads.of_token with ⟨first, kind, rfl, isFirst, rfl⟩
  obtain rfl := Option.some.inj (isBrace.symm.trans (accepts_of_mark (shape_of_accepts isBrace)))
  have closes : (Grammar.seq (punctuation "\x7b") name.content).Closes Wanted.isCloser
      Rule.endsMembers = true :=
    Bool.and_eq_true_iff.2 ⟨content_closes isBody, Bool.or_eq_true_iff.2 (.inr rfl)⟩
  rcases exists_closer closes rfl (.seq openingReads contentReads) with
    ⟨start, closer, split, isCloser, texts⟩
  refine ⟨_, rfl, [first.node kind] ++ inner, brace, closer, start.map (·.text), ?_, isBrace,
    by rw [split]; simp, isCloser, texts, fun {made node} member => ?_⟩
  · rw [List.append_assoc]
  · rcases content_enlarged isBody member contentReads closingReads with ⟨taken, rfl, again⟩
    refine ⟨first :: (taken ++ (made ++ brace :: rest)), fun token inLeft => ?_, .rule ?_⟩
    · simp only [List.mem_cons, List.mem_append] at inLeft ⊢
      tauto
    · rw [body_eq_enclosed isBody]
      have whole : Reads takeLexeme Rule.body
          (.branch .block (enclosed "\x7b" "\x7d" name.content)) _ _ :=
        .branch (.seq (.token_of_accepts isFirst _) (.seq again closingReads))
      simpa [Reading.after, Reading.under] using whole

theorem hasRoom_of_compilationUnit {root inner block : Node} {path : List Nat} {place : Nat}
    (reads : Reads takeLexeme Rule.body (.rule .compilationUnit) input (some ([root], rest)))
    (found : root.descendant? path = some inner) (isClass : inner.kind = .classDecl)
    (inPlace : inner.children[place]? = some block) (isBlock : block.kind = .block) :
    HasRoom input block fun left other =>
      Reads takeLexeme Rule.body (.rule .compilationUnit) left
        (some ([root.replaceAt other (path ++ [place])], rest)) := by
  have exchanges := compilationUnit_exchanges reads
  rcases @exchanges.exists_place [] [] root inner path rfl found isClass with
    ⟨front, inside, back, rfl, classReads, fileAgain⟩
  rcases exists_classParts classReads with
    ⟨name, classFront, between, head, body, isBody, rfl, is, bodyReads, headBlockless, classAgain⟩
  rcases hasRoom_of_body isBody bodyReads with ⟨onlyBlock, rfl, room⟩
  obtain rfl : inner = Grammar.grow .classDecl (head ++ [onlyBlock]) := by simpa using is
  have parts : (head ++ [onlyBlock])[place]? = some block := inPlace
  -- no block stands in front of the body
  have noBlock : head[place]? = none := by
    refine Option.eq_none_iff_forall_ne_some.2 fun node inHead => ?_
    rw [List.getElem?_append_left (List.getElem?_eq_some_iff.1 inHead).1, inHead] at parts
    exact (headBlockless node (List.mem_of_getElem? inHead)).2 (Option.some.inj parts ▸ isBlock)
  have behindHead : head.length ≤ place := List.getElem?_eq_none_iff.1 noBlock
  obtain rfl : place = head.length :=
    Nat.le_antisymm (Nat.le_of_lt_succ (by simpa using (List.getElem?_eq_some_iff.1 parts).1))
      behindHead
  obtain rfl : onlyBlock = block := by simpa using parts
  have classRoom : HasRoom (classFront ++ between) onlyBlock fun left other =>
      Reads takeLexeme Rule.body (.rule .classDecl) left
        (some ([Grammar.grow .classDecl (head ++ [other])], back)) :=
    room.behind classFront fun _ _ => classAgain
  refine classRoom.behind front fun left other again => ?_
  rw [Node.replaceAt_append found, Node.replaceAt_of_children rfl]
  exact (fileAgain again).1

end

end Verbatim.Java
