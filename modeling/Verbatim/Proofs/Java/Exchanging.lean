import Verbatim.Proofs.Java.Extending
import Verbatim.Proofs.Tree.Paths

/-! Declarations in the place of others. Where a declaration of a type was read, another one can
stand at any depth: what stands in front of it is read as before, since it does not look further
than to the front of a declaration, and what stands behind it is not touched. -/

namespace Verbatim.Java

open Grammar (punctuation identifier keyword separated)
open Rule (declared enumCore typeCore)

/-! ## What is exchanged -/

/-- Whatever declaration was read on the way to these nodes, another one can be read in its
place, if the same stands behind it; what stands at the front afterwards is related to what
stood there. -/
structure Exchanges (kept : List Lexeme → List Lexeme → Prop) (grammar : Grammar Rule)
    (input : List Lexeme) (nodes : List Node) (rest : List Lexeme) : Prop where
  exists_place : ∀ {before behind : List Node} {child inner : Node} {path : List Nat},
    nodes = before ++ child :: behind → child.descendant? path = some inner →
    inner.kind = .classDecl →
    ∃ front inside back, input = front ++ inside ∧
      Reads takeLexeme Rule.body (.rule .classDecl) inside (some ([inner], back)) ∧
      ∀ {other : List Lexeme} {new : Node},
        Reads takeLexeme Rule.body (.rule .classDecl) other (some ([new], back)) →
        Reads takeLexeme Rule.body grammar (front ++ other)
          (some (before ++ child.replaceAt new path :: behind, rest)) ∧ kept input (front ++ other)

theorem append_eq_append_cons {α : Type} {nodes others before behind : List α} {child : α}
    (equal : nodes ++ others = before ++ child :: behind) :
    (∃ more, nodes = before ++ child :: more ∧ behind = more ++ others) ∨
      ∃ front, before = nodes ++ front ∧ others = front ++ child :: behind := by
  rcases List.append_eq_append_iff.1 equal with ⟨front, rfl, rfl⟩ | ⟨more, rfl, right⟩
  · exact .inr ⟨front, rfl, rfl⟩
  · cases more with
    | nil => exact .inr ⟨[], by simp, right.symm⟩
    | cons first more =>
        rcases List.cons.inj right with ⟨rfl, rfl⟩
        exact .inl ⟨more, rfl, rfl⟩

namespace Exchanges

variable {kept later : List Lexeme → List Lexeme → Prop} {grammar first second part : Grammar Rule}
  {input between rest : List Lexeme} {nodes others : List Node}

theorem of_none (none : ∀ node ∈ nodes, node.Everywhere (·.kind ≠ .classDecl)) :
    Exchanges kept grammar input nodes rest := by
  refine ⟨fun {before behind child inner path} equal found isClass => ?_⟩
  have member : child ∈ nodes := equal ▸ List.mem_append_right _ List.mem_cons_self
  exact absurd isClass (none child member inner (Node.mem_preorder_of_descendant? found))

theorem imp (exchanges : Exchanges kept grammar input nodes rest) {other : Grammar Rule}
    (implies : ∀ {changed more}, Reads takeLexeme Rule.body grammar changed (some (more, rest)) →
      kept input changed →
      Reads takeLexeme Rule.body other changed (some (more, rest)) ∧ later input changed) :
    Exchanges later other input nodes rest := by
  refine ⟨fun {before behind child inner path} equal found isClass => ?_⟩
  rcases exchanges.exists_place equal found isClass with
    ⟨front, inside, back, split, innerReads, again⟩
  exact ⟨front, inside, back, split, innerReads, fun otherReads =>
    implies (again otherReads).1 (again otherReads).2⟩

theorem mono (exchanges : Exchanges kept grammar input nodes rest)
    (tells : ∀ {changed more}, Reads takeLexeme Rule.body grammar changed (some (more, rest)) →
      kept input changed → later input changed) : Exchanges later grammar input nodes rest :=
  exchanges.imp fun again isKept => ⟨again, tells again isKept⟩

theorem rule {name : Rule} (exchanges : Exchanges kept (Rule.body name) input nodes rest) :
    Exchanges kept (.rule name) input nodes rest :=
  exchanges.imp fun again isKept => ⟨.rule again, isKept⟩

theorem choice_first (exchanges : Exchanges kept first input nodes rest) :
    Exchanges kept (.choice first second) input nodes rest :=
  exchanges.imp fun again isKept => ⟨.choiceFirst again, isKept⟩

theorem optional (reads : Reads takeLexeme Rule.body (.optional part) input (some (nodes, rest)))
    (present : Reads takeLexeme Rule.body part input (some (nodes, rest)) →
      Exchanges kept part input nodes rest) :
    Exchanges kept (.optional part) input nodes rest := by
  rcases reads.of_optional with someReads | ⟨-, rfl, rfl⟩
  · exact (present someReads).imp fun again isKept => ⟨.optional again, isKept⟩
  · exact .of_none fun _ absent => absurd absent List.not_mem_nil

theorem branch {kind : Kind} (other : kind ≠ .classDecl)
    (exchanges : Exchanges kept part input nodes rest) :
    Exchanges kept (.branch kind part) input [Grammar.grow kind nodes] rest := by
  refine ⟨fun {before behind child inner path} equal found isClass => ?_⟩
  rcases List.singleton_eq_append_iff.1 equal with ⟨rfl, equal⟩ | ⟨-, never⟩
  · rcases List.cons.inj equal with ⟨rfl, rfl⟩
    cases path with
    | nil =>
        cases found
        exact absurd isClass other
    | cons place path =>
        rcases Node.exists_child_of_descendant? found with
          ⟨front, below, back, children, rfl, deeper⟩
        rcases exchanges.exists_place children deeper isClass with
          ⟨_, _, _, split, innerReads, again⟩
        refine ⟨_, _, _, split, innerReads, fun otherReads => ⟨?_, (again otherReads).2⟩⟩
        rw [Node.replaceAt_of_children children]
        exact .branch (again otherReads).1
  · cases never

theorem seq (firstReads : Reads takeLexeme Rule.body first input (some (nodes, between)))
    (secondReads : Reads takeLexeme Rule.body second between (some (others, rest)))
    (firstExchanges : Exchanges kept first input nodes between)
    (secondExchanges : Exchanges later second between others rest)
    (thins : Thins (fun _ => false) (later between) (kept input) first input nodes between) :
    Exchanges kept (.seq first second) input (nodes ++ others) rest := by
  refine ⟨fun {before behind child inner path} equal found isClass => ?_⟩
  rcases append_eq_append_cons equal with ⟨more, inFirst, rfl⟩ | ⟨front, rfl, inSecond⟩
  · rcases firstExchanges.exists_place inFirst found isClass with
      ⟨front, inside, back, split, innerReads, again⟩
    refine ⟨front, inside, back, split, innerReads, fun otherReads => ⟨?_, (again otherReads).2⟩⟩
    have whole := Reads.seq (again otherReads).1 secondReads
    simpa [Reading.after] using whole
  · rcases secondExchanges.exists_place inSecond found isClass with
      ⟨front, inside, back, rfl, innerReads, again⟩
    rcases fits_of_thins thins ⟨_, (again innerReads).2⟩ firstReads with ⟨taken, rfl, fits⟩
    refine ⟨taken ++ front, inside, back, (List.append_assoc ..).symm, innerReads,
      fun otherReads => ?_⟩
    rcases again otherReads with ⟨secondAgain, isLater⟩
    rw [List.append_assoc, List.append_assoc]
    exact ⟨.seq (fits _ isLater).1 secondAgain, (fits _ isLater).2⟩

theorem seq_first (firstReads : Reads takeLexeme Rule.body first input (some (nodes, between)))
    (secondReads : Reads takeLexeme Rule.body second between (some (others, rest)))
    (exchanges : Exchanges kept first input nodes between)
    (none : ∀ node ∈ others, node.Everywhere (·.kind ≠ .classDecl)) :
    Exchanges kept (.seq first second) input (nodes ++ others) rest := by
  rcases firstReads.yields rfl with ⟨taken, split, -⟩
  have nowhere : Exchanges (fun _ _ => False) second between others rest := .of_none none
  exact seq firstReads secondReads exchanges nowhere
    ⟨taken, taken, split, .refl _, fun _ => False.elim⟩

theorem many {size : Nat} (takes : part.mayTakeNothing Rule.mayBeEmpty = false)
    (small : input.length ≤ size)
    (exchanges : ∀ {input rest nodes}, input.length ≤ size →
      Reads takeLexeme Rule.body part input (some (nodes, rest)) →
      Exchanges kept part input nodes rest)
    (thins : ∀ {input rest nodes}, input.length ≤ size →
      Reads takeLexeme Rule.body part input (some (nodes, rest)) →
      Thins (fun _ => false) (kept rest) (kept input) part input nodes rest)
    (reads : Reads takeLexeme Rule.body (.many part) input (some (nodes, rest))) :
    Exchanges kept (.many part) input nodes rest := by
  induction length : input.length using Nat.strongRecOn generalizing input nodes with
  | ind length induction =>
    subst length
    rcases reads.of_many with ⟨-, rfl, rfl⟩ | ⟨nodes, between, others, rfl, partReads, moreReads⟩
    · exact .of_none fun _ absent => absurd absent List.not_mem_nil
    · have shorter := (partReads.rest_length Rule.mayBeEmpty_sound).2 takes
      have more := induction between.length shorter (Nat.le_trans (Nat.le_of_lt shorter) small)
        moreReads rfl
      refine (seq partReads moreReads (exchanges small partReads) more
        (thins small partReads)).imp fun again isKept => ⟨?_, isKept⟩
      rcases again.of_seq with ⟨_, _, _, rfl, firstAgain, moreAgain⟩
      exact .manyMore firstAgain moreAgain

end Exchanges

/-! ## Parts without declarations -/

section

variable {grammar : Grammar Rule} {kept : List Lexeme → List Lexeme → Prop}
  {input rest : List Lexeme} {nodes : List Node}

theorem lacks_of_reads {kind : Kind} (noToken : kind.isToken = false) {rules : Rule → Bool}
    (closed : ∀ name, rules name = true →
      (Rule.body name).Branches (fun other _ => other ≠ kind) rules = true)
    (reads : Reads takeLexeme Rule.body grammar input (some (nodes, rest)))
    (lacks : grammar.Branches (fun other _ => other ≠ kind) rules = true) :
    ∀ node ∈ nodes, node.Everywhere (·.kind ≠ kind) := by
  rcases reads.yields rfl with ⟨taken, rfl, yields⟩
  refine yields.everywhere closed (fun lexeme other isToken => ?_) ?_ lacks
  · rintro rfl
    exact Bool.false_ne_true (noToken.symm.trans isToken)
  · intro other part taken nodes allowed _
    exact of_decide_eq_true allowed

def Rule.isClassless (rule : Rule) : Bool :=
  !([compilationUnit, topLevel, classDecl, classBody, enumBody, enumValues, enumValue,
    member].contains rule)

theorem Rule.isClassless_body (name : Rule) (classless : name.isClassless = true) :
    (body name).Branches (fun other _ => other ≠ .classDecl) isClassless = true := by
  revert classless
  cases name <;> decide

theorem without_classes
    (classless : grammar.Branches (fun other _ => other ≠ .classDecl) Rule.isClassless = true)
    (reads : Reads takeLexeme Rule.body grammar input (some (nodes, rest))) :
    ∀ node ∈ nodes, node.Everywhere (·.kind ≠ .classDecl) :=
  lacks_of_reads rfl Rule.isClassless_body reads classless

theorem Exchanges.of_classless
    (classless : grammar.Branches (fun other _ => other ≠ .classDecl) Rule.isClassless = true)
    (reads : Reads takeLexeme Rule.body grammar input (some (nodes, rest))) :
    Exchanges kept grammar input nodes rest :=
  .of_none (without_classes classless reads)

/-! ## Heads and bodies -/

namespace Rule

def inHeads (rule : Rule) : Bool :=
  rule.inSignatures || [modifiers, annotationUse, parenGroup].contains rule

def inHeadsBelow (rule : Rule) : Bool := rule.inHeads || rule.inGroups

theorem inHeadsBelow_body (name : Rule) (inside : name.inHeadsBelow = true) :
    (body name).Branches (fun other _ => other ≠ .block) inHeadsBelow = true := by
  revert inside
  cases name <;> decide

def isTypeBody : Rule → Bool
  | classBody | enumBody => true
  | _ => false

theorem body_of_isTypeBody {name : Rule} (isBody : name.isTypeBody = true) :
    ∃ part, body name = .branch .block (.seq (punctuation "\x7b") part) := by
  cases name <;> first | exact ⟨_, rfl⟩ | cases isBody

end Rule

theorem stopping_head :
    Stopping Rule.body Rule.peeked bracketPairs (shownBy "\x7b")
      Rule.inHeads Rule.pairsBrackets := by
  apply stopping_brackets
  decide

theorem shows_of_typeBody {name : Rule} (isBody : name.isTypeBody = true)
    (reads : Reads takeLexeme Rule.body (.rule name) input (some (nodes, rest))) :
    Shows (shownBy "\x7b") input := by
  rcases Rule.body_of_isTypeBody isBody with ⟨part, is⟩
  exact shows_of_braces is reads

/-- A declaration is a head, which is read the same in front of any brace, and a body. -/
theorem exists_classParts
    (reads : Reads takeLexeme Rule.body (.rule .classDecl) input (some (nodes, rest))) :
    ∃ name front between head body, name.isTypeBody = true ∧ input = front ++ between ∧
      nodes = [Grammar.grow .classDecl (head ++ body)] ∧
      Reads takeLexeme Rule.body (.rule name) between (some (body, rest)) ∧
      (∀ node ∈ head, node.Everywhere (·.kind ≠ .classDecl) ∧ node.kind ≠ .block) ∧
      ∀ {changed left : List Lexeme} {new : List Node},
        Reads takeLexeme Rule.body (.rule name) changed (some (new, left)) →
        Reads takeLexeme Rule.body (.rule .classDecl) (front ++ changed)
          (some ([Grammar.grow .classDecl (head ++ new)], left)) := by
  have besides {grammar : Grammar Rule} {input rest : List Lexeme} {head : List Node}
      (headReads : Reads takeLexeme Rule.body grammar input (some (head, rest)))
      (classless : grammar.Branches (fun other _ => other ≠ .classDecl) Rule.isClassless = true)
      (blockless : grammar.Branches (fun other _ => other ≠ .block) Rule.inHeadsBelow = true) :
      ∀ node ∈ head, node.Everywhere (·.kind ≠ .classDecl) ∧ node.kind ≠ .block :=
        fun node member =>
    ⟨without_classes classless headReads node member,
      (lacks_of_reads rfl Rule.inHeadsBelow_body headReads blockless node member).here⟩
  rcases reads.of_rule.of_choice with ⟨-, enumReads⟩ | ⟨-, typeReads⟩
  · rcases enumReads.of_branch with ⟨_, partReads, rfl⟩
    rcases partReads.of_seq with ⟨_, _, _, rfl, modifiersRead, coreReads⟩
    rcases coreReads.of_seq with ⟨_, _, _, rfl, wordReads, named⟩
    rcases named.of_seq with ⟨_, _, _, rfl, nameReads, behindName⟩
    rcases behindName.of_seq with ⟨_, between, body, rfl, supertypesRead, bodyReads⟩
    have headReads : Reads takeLexeme Rule.body
        (.seq (.seq (.seq (.rule .modifiers) (keyword "enum")) identifier)
          (.many (.rule .supertypes))) _ _ :=
      .seq (.seq (.seq modifiersRead wordReads) nameReads) supertypesRead
    rcases fits_of_marked stopping_head rfl headReads (shows_of_typeBody rfl bodyReads) with
      ⟨front, rfl, fits⟩
    refine ⟨.enumBody, front, between, _, body, rfl, rfl, ?_, bodyReads,
      besides headReads rfl rfl, fun again => ?_⟩
    · simp only [List.append_assoc]
    · have whole := Reads.seq (fits _ (shows_of_typeBody rfl again)) again
      exact .rule (.choiceFirst (.branch whole.assoc.assoc.assoc))
  · rcases typeReads.of_branch with ⟨_, partReads, rfl⟩
    rcases partReads.of_seq with ⟨_, _, _, rfl, modifiersRead, coreReads⟩
    rcases coreReads.of_seq with ⟨_, _, _, rfl, wordReads, named⟩
    rcases named.of_seq with ⟨_, _, _, rfl, nameReads, behindName⟩
    rcases behindName.of_seq with ⟨_, _, _, rfl, parametersRead, behindParameters⟩
    rcases behindParameters.of_seq with ⟨_, between, body, rfl, supertypesRead, bodyReads⟩
    have headReads : Reads takeLexeme Rule.body
        (.seq (.seq (.seq (.seq (.rule .modifiers) (.rule .classKeyword)) identifier)
          (.optional (.rule .typeParameters))) (.many (.rule .supertypes))) _ _ :=
      .seq (.seq (.seq (.seq modifiersRead wordReads) nameReads) parametersRead) supertypesRead
    rcases fits_of_marked stopping_head rfl headReads (shows_of_typeBody rfl bodyReads) with
      ⟨front, rfl, fits⟩
    refine ⟨.classBody, front, between, _, body, rfl, rfl, ?_, bodyReads,
      besides headReads rfl rfl, fun again => ?_⟩
    · simp only [List.append_assoc]
    · have whole := Reads.seq (fits _ (shows_of_typeBody rfl again)) again
      have declared : Reads takeLexeme Rule.body (declared .classDecl typeCore) _ _ :=
        .branch whole.assoc.assoc.assoc.assoc
      exact .rule (.choiceSecond (none_of_declared declared enumCore_none_of_typeCore) declared)

theorem noValue_of_modifiers {between : List Lexeme}
    (reads : Reads takeLexeme Rule.body (.rule .modifiers) input (some (nodes, between)))
    (noValue : NoValue between) : NoValue input := by
  have allReads := reads.of_rule
  generalize repetition : Rule.body .modifiers = grammar at allReads
  generalize reading : (some (nodes, between) : Reading (List Lexeme)) = outcome at allReads
  induction allReads generalizing nodes with
  | manyEnd =>
      cases repetition
      cases reading
      exact noValue
  | manyMore partReads _ _ more =>
      cases repetition
      rcases Reading.after_eq_some_iff.1 reading.symm with ⟨others, rfl, rfl⟩
      have behind := more (.rule ‹_›) rfl rfl
      rcases partReads.of_choice with ⟨-, annotationReads⟩ | ⟨unannotated, modifierReads⟩
      · exact (noValue_iff_of_annotated annotationReads).2 behind
      · exact (noValue_iff_of_unannotated unannotated).2
          (modifierReads.refuses_of_takes (by decide) rfl)
  | _ => cases repetition

theorem noValue_of_classDecl
    (reads : Reads takeLexeme Rule.body (.rule .classDecl) input (some (nodes, rest))) :
    NoValue input := by
  have behind {core : Grammar Rule} (undecorated : ∀ {place left behind},
        Reads takeLexeme Rule.body core place (some (left, behind)) → Undecorated place)
      (separate : (core.first.all fun first => first.apart .identifier) = true)
      (takes : core.mayTakeNothing Rule.mayBeEmpty = false)
      (reads : Reads takeLexeme Rule.body (declared .classDecl core) input (some (nodes, rest))) :
      NoValue input := by
    rcases reads.of_branch with ⟨_, partReads, rfl⟩
    rcases partReads.of_seq with ⟨_, _, _, rfl, modifiersRead, coreReads⟩
    exact noValue_of_modifiers modifiersRead ((noValue_iff_of_unannotated
      (undecorated coreReads).unannotated).2 (coreReads.refuses_of_takes separate takes))
  rcases reads.of_rule.of_choice with ⟨-, enumReads⟩ | ⟨-, typeReads⟩
  · exact behind undecorated_enumCore (by decide) rfl enumReads
  · exact behind undecorated_typeCore (by decide) rfl typeReads

theorem keeps_of_classDecl {changed : List Lexeme}
    (reads : Reads takeLexeme Rule.body (.rule .classDecl) changed (some (nodes, rest))) :
    Keeps input changed :=
  keeps_of_declaration reads (by decide) rfl fun _ => noValue_of_classDecl reads

end

/-! ## Members of bodies -/

section

variable {size : Nat} {input rest : List Lexeme} {nodes : List Node}

/-- Declarations can be exchanged in members up to some size. -/
def MembersExchange (size : Nat) : Prop :=
  ∀ {input rest : List Lexeme} {nodes : List Node}, input.length < size →
    Reads takeLexeme Rule.body (.rule .member) input (some (nodes, rest)) →
    Exchanges Keeps (.rule .member) input nodes rest

theorem token_passes {wanted : Wanted} {later : List Lexeme → Prop}
    (reads : Reads takeLexeme Rule.body (.token wanted) input (some (nodes, rest))) :
    Thins (fun _ => false) later (fun _ => True) (.token wanted) input nodes rest :=
  (Thins.token (onlyAnnotations_none.stay rfl reads) reads).mono (fun _ _ => trivial)
    fun _ _ _ => trivial

variable (members : MembersExchange size)

include members

theorem members_exchanges (small : input.length < size)
    (reads : Reads takeLexeme Rule.body (.many (.rule .member)) input (some (nodes, rest))) :
    Exchanges Keeps (.many (.rule .member)) input nodes rest := by
  cases size with
  | zero => exact absurd small (Nat.not_lt_zero _)
  | succ bound =>
      exact .many rfl (Nat.le_of_lt_succ small)
        (fun shorter memberReads => members (Nat.lt_succ_of_le shorter) memberReads)
        (fun _ memberReads =>
          (membersThin onlyAnnotations_none _ (Nat.lt_succ_self _) memberReads).mono
          (fun _ _ => trivial) fun _ _ keeps => keeps) reads

theorem classBody_exchanges (small : input.length ≤ size)
    (reads : Reads takeLexeme Rule.body (.rule .classBody) input (some (nodes, rest))) :
    Exchanges (fun _ changed => Shows (shownBy "\x7b") changed) (.rule .classBody) input nodes
      rest := by
  rcases reads.of_rule.of_branch with ⟨_, partReads, rfl⟩
  rcases partReads.of_seq with ⟨_, _, _, rfl, openingReads, behind⟩
  rcases behind.of_seq with ⟨_, _, _, rfl, membersRead, closingReads⟩
  have shorter := (openingReads.rest_length Rule.mayBeEmpty_sound).2 rfl
  have inside := Exchanges.seq_first membersRead closingReads
    (members_exchanges members (by omega) membersRead) (without_classes rfl closingReads)
  have whole : Exchanges (fun _ _ => True) _ input _ rest :=
    .seq openingReads behind (.of_classless rfl openingReads) inside (token_passes openingReads)
  have body : Exchanges (fun _ _ => True) (.rule .classBody) input _ rest :=
    .rule (.branch (by decide) whole)
  exact body.mono fun again _ => shows_of_typeBody rfl again

/-! ## Values -/

theorem enumValue_exchanges (small : input.length ≤ size)
    (reads : Reads takeLexeme Rule.body (.rule .enumValue) input (some (nodes, rest))) :
    Exchanges (fun _ _ => True) (.rule .enumValue) input nodes rest := by
  rcases reads.of_rule.of_branch with ⟨_, partReads, rfl⟩
  rcases partReads.of_seq with ⟨_, _, _, rfl, annotationsRead, named⟩
  rcases named.of_seq with ⟨_, _, _, rfl, nameReads, behind⟩
  rcases behind.of_seq with ⟨_, beforeBody, body, rfl, argumentsRead, bodyReads⟩
  have headReads : Reads takeLexeme Rule.body
      (.seq (.seq (.many (.rule .annotationUse)) identifier) (.optional (.rule .parenGroup))) _ _ :=
    .seq (.seq annotationsRead nameReads) argumentsRead
  refine .rule (.branch (by decide) ?_)
  rcases bodyReads.of_optional with someReads | ⟨-, rfl, rfl⟩
  · have shorter := (headReads.rest_length Rule.mayBeEmpty_sound).1
    rcases fits_of_marked stopping_head rfl headReads (shows_of_typeBody rfl someReads) with
      ⟨taken, split, fits⟩
    have passes : Thins (fun _ => false) (Shows (shownBy "\x7b"))
        (fun _ => True) _ input _ beforeBody :=
      (Thins.of_fits (fun _ _ _ _ => rfl) fits split).mono
        (fun _ shows => shows) fun _ _ _ => trivial
    have inside := Exchanges.optional bodyReads
      fun someReads => classBody_exchanges members (by omega) someReads
    have whole : Exchanges (fun _ _ => True) _ input _ rest :=
      .seq headReads bodyReads (.of_classless rfl headReads) inside passes
    rw [← List.append_assoc, ← List.append_assoc]
    exact whole.imp fun again _ => ⟨again.assoc.assoc, trivial⟩
  · refine .of_none ?_
    rw [List.append_nil, ← List.append_assoc]
    exact without_classes rfl headReads

theorem nextValue_exchanges (small : input.length ≤ size)
    (reads : Reads takeLexeme Rule.body (.seq (punctuation ",") (.rule .enumValue)) input
      (some (nodes, rest))) :
    Exchanges EndsValue (.seq (punctuation ",") (.rule .enumValue)) input nodes rest := by
  rcases reads.of_seq with ⟨_, _, _, rfl, commaReads, valueReads⟩
  have shorter := (commaReads.rest_length Rule.mayBeEmpty_sound).1
  have whole : Exchanges (fun _ _ => True) _ input _ rest :=
    .seq commaReads valueReads (.of_classless rfl commaReads)
      (enumValue_exchanges members (Nat.le_trans shorter small) valueReads)
      (token_passes commaReads)
  refine whole.mono fun again _ => ⟨⟨?_, ?_⟩, fun _ => noBody_of_refuses ?_⟩
  · exact again.refuses_of_takes (by decide) rfl
  · exact again.refuses_of_takes (by decide) rfl
  · exact again.refuses_of_takes (by decide) rfl

theorem enumValues_exchanges (small : input.length ≤ size)
    (reads : Reads takeLexeme Rule.body (.rule .enumValues) input (some (nodes, rest))) :
    Exchanges (fun _ _ => True) (.rule .enumValues) input nodes rest := by
  rcases reads.of_rule.of_seq with ⟨_, _, _, rfl, separatedReads, commaReads⟩
  rcases separatedReads.of_seq with ⟨_, _, _, rfl, firstReads, moreReads⟩
  have short := Nat.le_trans (firstReads.rest_length Rule.mayBeEmpty_sound).1 small
  have annotated := membersThin onlyAnnotations_none
  have more := Exchanges.many rfl short
    (fun shorter elementReads => nextValue_exchanges members shorter elementReads)
    (fun _ elementReads => nextValue_thins onlyAnnotations_none (annotated _) (Nat.le_refl _)
      elementReads) moreReads
  have first : Thins (fun _ => false) _ (fun _ => True) _ input _ _ :=
    enumValue_thins onlyAnnotations_none (annotated _) (Nat.le_refl _) firstReads
  exact .rule (.seq_first separatedReads commaReads (.seq firstReads moreReads
    (enumValue_exchanges members small firstReads) more first) (without_classes rfl commaReads))

theorem enumBody_exchanges (small : input.length ≤ size)
    (reads : Reads takeLexeme Rule.body (.rule .enumBody) input (some (nodes, rest))) :
    Exchanges (fun _ changed => Shows (shownBy "\x7b") changed) (.rule .enumBody) input nodes
      rest := by
  rcases reads.of_rule.of_branch with ⟨_, partReads, rfl⟩
  rcases partReads.of_seq with ⟨_, inside, _, rfl, openingReads, behind⟩
  rcases behind.of_seq with ⟨_, behindMembers, _, rfl, contentReads, closingReads⟩
  rcases contentReads.of_seq with ⟨valueNodes, behindValues, _, rfl, valuesRead, behindReads⟩
  rcases behindReads.of_seq with ⟨_, behindSemicolon, memberNodes, rfl, semicolonReads, membersRead⟩
  have shorter := (openingReads.rest_length Rule.mayBeEmpty_sound).2 rfl
  have notLonger := (valuesRead.rest_length Rule.mayBeEmpty_sound).1
  have still := (semicolonReads.rest_length Rule.mayBeEmpty_sound).1
  have fromMembers : Exchanges EndsValues _ behindSemicolon memberNodes behindMembers :=
    (members_exchanges members (by omega) membersRead).mono
      (endsValues_of_members (@endsMembers_of_closing [] _ _ _ closingReads))
  have fromSemicolon : Exchanges EndsValues _ behindValues _ behindMembers :=
    .seq semicolonReads membersRead (.of_classless rfl semicolonReads) fromMembers
      (semicolon_thins onlyAnnotations_none semicolonReads)
  have content : Exchanges (fun _ _ => True) _ inside _ behindMembers :=
    .seq valuesRead behindReads (.optional valuesRead fun someReads =>
      enumValues_exchanges members (by omega) someReads) fromSemicolon
      (optionalValues_thins onlyAnnotations_none (membersThin onlyAnnotations_none _)
        (Nat.le_refl _)
        valuesRead)
  have braced : Exchanges (fun _ _ => True) _ input _ rest :=
    .seq openingReads behind (.of_classless rfl openingReads)
      (.seq_first contentReads closingReads content (without_classes rfl closingReads))
      (token_passes openingReads)
  have body : Exchanges (fun _ _ => True) (.rule .enumBody) input _ rest :=
    .rule (.branch (by decide) braced)
  exact body.mono fun again _ => shows_of_typeBody rfl again

theorem typeBody_exchanges {name : Rule} (isBody : name.isTypeBody = true)
    (small : input.length ≤ size)
    (reads : Reads takeLexeme Rule.body (.rule name) input (some (nodes, rest))) :
    Exchanges (fun _ changed => Shows (shownBy "\x7b") changed) (.rule name) input nodes rest := by
  cases name with
  | classBody => exact classBody_exchanges members small reads
  | enumBody => exact enumBody_exchanges members small reads
  | _ => cases isBody

theorem classDecl_exchanges (small : input.length ≤ size)
    (reads : Reads takeLexeme Rule.body (.rule .classDecl) input (some (nodes, rest))) :
    Exchanges Keeps (.rule .classDecl) input nodes rest := by
  rcases exists_classParts reads with
    ⟨name, start, between, head, body, isBody, rfl, rfl, bodyReads, besides, again⟩
  have short : between.length ≤ size := by
    rw [List.length_append] at small
    omega
  have inBody := typeBody_exchanges members isBody short bodyReads
  refine ⟨fun {before behind child inner path} equal found isClass => ?_⟩
  rcases List.singleton_eq_append_iff.1 equal with ⟨rfl, equal⟩ | ⟨-, never⟩
  · rcases List.cons.inj equal with ⟨rfl, rfl⟩
    cases path with
    | nil =>
        cases found
        exact ⟨[], _, rest, rfl, reads, fun otherReads =>
          ⟨otherReads, keeps_of_classDecl otherReads⟩⟩
    | cons place path =>
        rcases Node.exists_child_of_descendant? found with
          ⟨front, below, back, children, rfl, deeper⟩
        rcases append_eq_append_cons children with ⟨more, inHead, -⟩ | ⟨front, rfl, inside⟩
        · have member : below ∈ head := inHead ▸ List.mem_append_right _ List.mem_cons_self
          exact absurd isClass
            ((besides below member).1 inner (Node.mem_preorder_of_descendant? deeper))
        · rcases inBody.exists_place inside deeper isClass with
            ⟨_, _, _, rfl, innerReads, exchanged⟩
          refine ⟨_, _, _, (List.append_assoc ..).symm, innerReads, fun otherReads => ?_⟩
          have whole := again (exchanged otherReads).1
          rw [← List.append_assoc] at whole
          rw [Node.replaceAt_of_children children, List.append_assoc head]
          exact ⟨whole, keeps_of_classDecl whole⟩
  · cases never

omit members

theorem membersExchange (size : Nat) : MembersExchange size := by
  induction size with
  | zero => exact fun small => absurd small (Nat.not_lt_zero _)
  | succ size induction =>
      intro input rest nodes small reads
      refine .rule ?_
      rcases reads.of_rule.of_choice with ⟨-, classReads⟩ | ⟨-, others⟩
      · exact .choice_first (classDecl_exchanges induction (Nat.le_of_lt_succ small) classReads)
      · exact .of_none (without_classes rfl others)

/-! ## Files -/

theorem topLevel_exchanges
    (reads : Reads takeLexeme Rule.body (.rule .topLevel) input (some (nodes, rest))) :
    Exchanges (fun _ _ => True) (.rule .topLevel) input nodes rest := by
  rcases reads.of_rule.of_choice with ⟨-, classReads⟩ | ⟨-, semicolonReads⟩
  · exact .rule (.choice_first ((classDecl_exchanges (membersExchange _) (Nat.le_refl _)
      classReads).mono fun _ _ => trivial))
  · exact .of_none (without_classes rfl semicolonReads)

theorem compilationUnit_exchanges
    (reads : Reads takeLexeme Rule.body (.rule .compilationUnit) input (some (nodes, rest))) :
    Exchanges (fun _ _ => True) (.rule .compilationUnit) input nodes rest := by
  rcases reads.of_rule.of_branch with ⟨_, partReads, rfl⟩
  rcases partReads.of_seq with ⟨_, _, _, rfl, packageReads, behind⟩
  rcases behind.of_seq with ⟨_, _, _, rfl, importsRead, behindImports⟩
  rcases behindImports.of_seq with ⟨_, _, _, rfl, typesRead, endReads⟩
  have types := Exchanges.many rfl (Nat.le_refl _) (fun _ typeReads => topLevel_exchanges typeReads)
    (fun _ typeReads => topLevel_thins onlyAnnotations_none typeReads) typesRead
  have fromTypes : Exchanges
      (fun _ changed => Reads takeLexeme Rule.body (.rule .importDecl) changed none) _ _ _ rest :=
    (Exchanges.seq_first typesRead endReads types (without_classes rfl endReads)).mono
      fun again _ => again.none_of_apart (by decide) rfl rfl
  have fromImports : Exchanges (fun _ _ => True) _ _ _ rest :=
    .seq importsRead behindImports (.of_classless rfl importsRead) fromTypes
      (imports_thins onlyAnnotations_none importsRead)
  have behindPackage : Exchanges
      (fun _ changed => Reads takeLexeme Rule.body (.rule .package) changed none) _ _ _ rest :=
    fromImports.mono fun again _ => package_none_of_others again
  exact .rule (.branch (by decide) (.seq packageReads behind (.of_classless rfl packageReads)
    behindPackage (optionalPackage_thins onlyAnnotations_none packageReads)))

end

end Verbatim.Java
