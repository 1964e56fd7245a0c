import Verbatim.Proofs.Java.Decorations

/-! Which declaration is read. What stands behind the modifiers tells it, so wherever one kind of
declaration is read no kind that is tried earlier is. -/

namespace Verbatim.Java

open Grammar (keyword punctuation identifier separated)

namespace Rule

/-! What declarations are behind their modifiers. -/

def enumCore : Body := keyword "enum" >> identifier >> all supertypes >> call enumBody

def typeCore : Body :=
  call classKeyword >> identifier >> open? typeParameters >> all supertypes >> call classBody

def methodHead : Body :=
  .seq (.seq (open? typeParameters) (.optional (call typeRef >> .ahead identifier))) identifier

def methodTail : Body :=
  call dimensions >> open? throws >> open? defaultValue >> call methodBody

def methodCore : Body :=
  open? typeParameters >> .optional (call typeRef >> .ahead identifier) >> identifier >>
    call parameters >> methodTail

def fieldCore : Body := call typeRef >> separated "," (call declarator) >> semicolon

def parameterCore : Body :=
  call typeRef >> .optional (punctuation "...") >> identifier >> call dimensions

def declared (kind : Kind) (core : Body) : Body := .branch kind (call modifiers >> core)

end Rule

open Rule (declared enumCore typeCore methodCore fieldCore parameterCore)

variable {core other : Grammar Rule} {kind otherKind : Kind} {input between rest : List Lexeme}
  {nodes : List Node}

/-! ## Behind the modifiers -/

theorem undecorated_of_first
    (reads : Reads takeLexeme Rule.body core input (some (nodes, rest)))
    (separate : ([.punctuation ".", .punctuation "(", .punctuation "@", .modifier].all fun wanted =>
      core.first.all fun first => first.apart wanted) = true)
    (takes : core.mayTakeNothing Rule.mayBeEmpty = false) : Undecorated input := by
  simp only [List.all_cons, List.all_nil, Bool.and_true, Bool.and_eq_true] at separate
  exact ⟨⟨reads.refuses_of_takes separate.1 takes, reads.refuses_of_takes separate.2.1 takes⟩,
    unannotated_of_refuses (reads.refuses_of_takes separate.2.2.1 takes),
    reads.refuses_of_takes separate.2.2.2 takes⟩

theorem undecorated_enumCore
    (reads : Reads takeLexeme Rule.body enumCore input (some (nodes, rest))) : Undecorated input :=
  undecorated_of_first reads (by decide) (by decide)

theorem undecorated_methodCore
    (reads : Reads takeLexeme Rule.body methodCore input (some (nodes, rest))) :
    Undecorated input :=
  undecorated_of_first reads (by decide) (by decide)

theorem undecorated_fieldCore
    (reads : Reads takeLexeme Rule.body fieldCore input (some (nodes, rest))) : Undecorated input :=
  undecorated_of_first reads (by decide) (by decide)

theorem undecorated_parameterCore
    (reads : Reads takeLexeme Rule.body parameterCore input (some (nodes, rest))) :
    Undecorated input :=
  undecorated_of_first reads (by decide) (by decide)

theorem undecorated_typeCore
    (reads : Reads takeLexeme Rule.body typeCore input (some (nodes, rest))) :
    Undecorated input := by
  have takes : typeCore.mayTakeNothing Rule.mayBeEmpty = false := by decide
  refine ⟨⟨reads.refuses_of_takes (by decide) takes,
    reads.refuses_of_takes (by decide) takes⟩, ?_,
    reads.refuses_of_takes (by decide) takes⟩
  rcases reads.of_seq with ⟨_, _, _, rfl, keywordReads, -⟩
  have refusesSign : ∀ {grammar : Grammar Rule} {left : List Node} {behind : List Lexeme},
      Reads takeLexeme Rule.body grammar input (some (left, behind)) →
      (grammar.first.all fun first => first.apart (.punctuation "@")) = true →
      grammar.mayTakeNothing Rule.mayBeEmpty = false →
      Reads takeLexeme Rule.body (.rule .annotationUse) input none :=
    fun again separate takes => unannotated_of_refuses (again.refuses_of_takes separate takes)
  rcases keywordReads.of_rule.of_choice with ⟨-, isClass⟩ | ⟨-, others⟩
  · exact refusesSign isClass (by decide) rfl
  · rcases others.of_choice with ⟨-, isInterface⟩ | ⟨-, isAnnotation⟩
    · exact refusesSign isInterface (by decide) rfl
    · rcases isAnnotation.of_seq with ⟨_, _, _, rfl, signReads, wordReads⟩
      refine .rule (.branch (.seq_none signReads (.seqNone ?_)))
      exact wordReads.none_of_apart (by decide) rfl rfl

/-! ## Other declarations -/

theorem none_of_core
    (reads : Reads takeLexeme Rule.body (.rule .modifiers) input (some (nodes, between)))
    (missing : Reads takeLexeme Rule.body core between none) :
    Reads takeLexeme Rule.body (declared kind core) input none :=
  .branch (.seq_none reads missing)

theorem none_of_declared
    (reads : Reads takeLexeme Rule.body (declared kind core) input (some (nodes, rest)))
    (apart : ∀ {place left behind},
      Reads takeLexeme Rule.body core place (some (left, behind)) →
      Reads takeLexeme Rule.body other place none) :
    Reads takeLexeme Rule.body (declared otherKind other) input none := by
  rcases reads.of_branch with ⟨inner, partReads, rfl⟩
  rcases partReads.of_seq with ⟨_, _, _, rfl, modifiersRead, coreReads⟩
  exact none_of_core modifiersRead (apart coreReads)

theorem enumCore_none (missing : takeLexeme (.keyword "enum") input = none) :
    Reads takeLexeme Rule.body enumCore input none :=
  .seqNone (.token_of_none missing)

theorem enumCore_none_of_typeCore
    (reads : Reads takeLexeme Rule.body typeCore input (some (nodes, rest))) :
    Reads takeLexeme Rule.body enumCore input none :=
  enumCore_none (reads.refuses_of_takes (by decide) (by decide))

theorem methodCore_none
    (noParameters : Reads takeLexeme Rule.body (.rule .typeParameters) input none)
    (noType : Reads takeLexeme Rule.body (.rule .typeRef) input none)
    (noName : takeLexeme .identifier input = none) :
    Reads takeLexeme Rule.body methodCore input none :=
  .seq_none (.optional noParameters) (.seq_none (.optional (.seqNone noType))
    (.seqNone (.token_of_none noName)))

theorem methodCore_none_of_fieldCore
    (reads : Reads takeLexeme Rule.body fieldCore input (some (nodes, rest))) :
    Reads takeLexeme Rule.body methodCore input none := by
  rcases reads.of_seq with ⟨typeNodes, named, _, rfl, typeReads, behindType⟩
  have noParameters : Reads takeLexeme Rule.body (.rule .typeParameters) input none :=
    typeReads.none_of_apart (by decide) rfl rfl
  rcases behindType.of_seq with ⟨_, _, _, rfl, declaratorsRead, semicolonReads⟩
  rcases declaratorsRead.of_seq with ⟨_, afterFirst, _, rfl, declaratorReads, moreReads⟩
  rcases declaratorReads.of_rule.of_branch with ⟨_, firstReads, rfl⟩
  rcases firstReads.of_seq with ⟨nameNodes, behindName, _, rfl, nameReads, restReads⟩
  have typed : Reads takeLexeme Rule.body (.optional (.seq (.rule .typeRef) (.ahead identifier)))
      input (some (typeNodes ++ [], named)) :=
    .optional (.seq typeReads (.ahead nameReads))
  have noSign : Refuses "(" behindName := by
    refine restReads.refuses (by decide) fun _ => ?_
    refine moreReads.refuses (by decide) fun _ => ?_
    exact semicolonReads.refuses_of_takes (by decide) rfl
  have noParenthesis : Reads takeLexeme Rule.body (.rule .parameters) behindName none :=
    .rule (.branch (.seqNone (.token_of_none noSign)))
  exact .seq_none (.optional noParameters) (.seq_none typed (.seq_none nameReads
    (.seqNone noParenthesis)))

/-- No declaration that has modifiers begins or goes on here. -/
structure NoDeclaration (input : List Lexeme) : Prop where
  refuses : ∀ wanted ∈ [Wanted.keyword "enum", .keyword "class", .keyword "interface",
    .punctuation "@", .punctuation "<", .identifier, .primitive, .modifier],
    takeLexeme wanted input = none

theorem noDeclaration_of_first {grammar : Grammar Rule}
    (reads : Reads takeLexeme Rule.body grammar input (some (nodes, rest)))
    (separate : ([Wanted.keyword "enum", .keyword "class", .keyword "interface", .punctuation "@",
      .punctuation "<", .identifier, .primitive, .modifier].all fun wanted =>
        grammar.first.all fun first => first.apart wanted) = true)
    (takes : grammar.mayTakeNothing Rule.mayBeEmpty = false) : NoDeclaration input :=
  ⟨fun wanted member => reads.refuses_of_takes (List.all_eq_true.1 separate wanted member) takes⟩

namespace NoDeclaration

theorem noElement (no : NoDeclaration input) :
    Reads takeLexeme Rule.body (.choice (.rule .annotationUse) (.token .modifier)) input none :=
  .choiceSecond (unannotated_of_refuses (no.refuses _ (by decide)))
    (.token_of_none (no.refuses _ (by decide)))

theorem none_of_starts (no : NoDeclaration input) {name : Rule}
    (starts : name.starts ⊆ [Wanted.keyword "enum", .keyword "class", .keyword "interface",
      .punctuation "@", .punctuation "<", .identifier, .primitive, .modifier])
    (takes : name.mayBeEmpty = false) : Reads takeLexeme Rule.body (.rule name) input none :=
  Rule.none_of_refuses (fun _ member => no.refuses _ (starts member)) takes

theorem classDecl_none (no : NoDeclaration between)
    (reads : Reads takeLexeme Rule.body (.rule .modifiers) input (some (nodes, between))) :
    Reads takeLexeme Rule.body (.rule .classDecl) input none :=
  .rule (.choiceSecond (none_of_core reads (enumCore_none (no.refuses _ (by decide))))
    (none_of_core reads (.seqNone (no.none_of_starts (by decide) rfl))))

theorem methodDecl_none (no : NoDeclaration between)
    (reads : Reads takeLexeme Rule.body (.rule .modifiers) input (some (nodes, between))) :
    Reads takeLexeme Rule.body (.rule .methodDecl) input none :=
  .rule (none_of_core reads (methodCore_none (no.none_of_starts (by decide) rfl)
    (no.none_of_starts (by decide) rfl) (no.refuses _ (by decide))))

theorem fieldDecl_none (no : NoDeclaration between)
    (reads : Reads takeLexeme Rule.body (.rule .modifiers) input (some (nodes, between))) :
    Reads takeLexeme Rule.body (.rule .fieldDecl) input none :=
  .rule (none_of_core reads (.seqNone (no.none_of_starts (by decide) rfl)))

end NoDeclaration

theorem classDecl_none_of_method
    (reads : Reads takeLexeme Rule.body (.rule .methodDecl) input (some (nodes, rest))) :
    Reads takeLexeme Rule.body (.rule .classDecl) input none :=
  .rule (.choiceSecond
    (none_of_declared reads.of_rule fun again =>
      enumCore_none (again.refuses_of_takes (by decide) (by decide)))
    (none_of_declared reads.of_rule fun again =>
      .seqNone (again.none_of_apart (by decide) (by decide) rfl)))

theorem classDecl_none_of_field
    (reads : Reads takeLexeme Rule.body (.rule .fieldDecl) input (some (nodes, rest))) :
    Reads takeLexeme Rule.body (.rule .classDecl) input none :=
  .rule (.choiceSecond
    (none_of_declared reads.of_rule fun again =>
      enumCore_none (again.refuses_of_takes (by decide) (by decide)))
    (none_of_declared reads.of_rule fun again =>
      .seqNone (again.none_of_apart (by decide) (by decide) rfl)))

theorem methodDecl_none_of_field
    (reads : Reads takeLexeme Rule.body (.rule .fieldDecl) input (some (nodes, rest))) :
    Reads takeLexeme Rule.body (.rule .methodDecl) input none :=
  .rule (none_of_declared reads.of_rule methodCore_none_of_fieldCore)

theorem exists_noDeclaration_of_initializer
    (reads : Reads takeLexeme Rule.body (.rule .initializer) input (some (nodes, rest))) :
    ∃ left between, Reads takeLexeme Rule.body (.rule .modifiers) input (some (left, between)) ∧
      NoDeclaration between := by
  have ofBlock : ∀ {place left behind},
      Reads takeLexeme Rule.body (.rule .block) place (some (left, behind)) → NoDeclaration place :=
    fun again => noDeclaration_of_first again (by decide) rfl
  rcases reads.of_rule.of_choice with ⟨-, staticReads⟩ | ⟨-, blockReads⟩
  · rcases staticReads.of_branch with ⟨inner, partReads, rfl⟩
    rcases partReads.of_seq with ⟨_, _, _, rfl, wordReads, blockReads⟩
    rcases wordReads.of_token with ⟨word, _, rfl, isStatic, rfl⟩
    have unannotated := unannotated_of_refuses (wordReads.refuses_of_takes (by decide) rfl)
    have isModifier : Wanted.modifier.accepts word = some .modifier := by
      cases tokenClass : word.tokenClass <;>
        simp only [Wanted.accepts, tokenClass] at isStatic ⊢ <;>
        first | cases isStatic | skip
      rw [Option.ite_none_right_eq_some] at isStatic
      rw [isStatic.1]
      decide
    exact ⟨_, _, .rule (.manyMore (.choiceSecond unannotated (.token_of_accepts isModifier _))
      (.manyEnd (ofBlock blockReads).noElement)), ofBlock blockReads⟩
  · exact ⟨_, _, .rule (.manyEnd (ofBlock blockReads).noElement), ofBlock blockReads⟩

/-! ## Members

The kinds of members in the order in which they are tried. -/

theorem exists_noDeclaration
    (reads : Reads takeLexeme Rule.body (.choice (.rule .initializer) Rule.semicolon) input
      (some (nodes, rest))) :
    ∃ left between, Reads takeLexeme Rule.body (.rule .modifiers) input (some (left, between)) ∧
      NoDeclaration between := by
  rcases reads.of_choice with ⟨-, initializerReads⟩ | ⟨-, semicolonReads⟩
  · exact exists_noDeclaration_of_initializer initializerReads
  · have no := noDeclaration_of_first semicolonReads (by decide) rfl
    exact ⟨_, _, .rule (.manyEnd no.noElement), no⟩

theorem initializer_none_of_others
    (reads : Reads takeLexeme Rule.body Rule.semicolon input (some (nodes, rest))) :
    Reads takeLexeme Rule.body (.rule .initializer) input none :=
  reads.none_of_apart (by decide) rfl rfl

theorem fieldDecl_none_of_others
    (reads : Reads takeLexeme Rule.body (.choice (.rule .initializer) Rule.semicolon) input
      (some (nodes, rest))) :
    Reads takeLexeme Rule.body (.rule .fieldDecl) input none := by
  rcases exists_noDeclaration reads with ⟨_, _, modifiersRead, no⟩
  exact no.fieldDecl_none modifiersRead

theorem methodDecl_none_of_others
    (reads : Reads takeLexeme Rule.body
      (.choice (.rule .fieldDecl) (.choice (.rule .initializer) Rule.semicolon)) input
      (some (nodes, rest))) :
    Reads takeLexeme Rule.body (.rule .methodDecl) input none := by
  rcases reads.of_choice with ⟨-, fieldReads⟩ | ⟨-, others⟩
  · exact methodDecl_none_of_field fieldReads
  · rcases exists_noDeclaration others with ⟨_, _, modifiersRead, no⟩
    exact no.methodDecl_none modifiersRead

theorem classDecl_none_of_others
    (reads : Reads takeLexeme Rule.body
      (.choice (.rule .methodDecl)
        (.choice (.rule .fieldDecl) (.choice (.rule .initializer) Rule.semicolon))) input
      (some (nodes, rest))) :
    Reads takeLexeme Rule.body (.rule .classDecl) input none := by
  rcases reads.of_choice with ⟨-, methodReads⟩ | ⟨-, others⟩
  · exact classDecl_none_of_method methodReads
  · rcases others.of_choice with ⟨-, fieldReads⟩ | ⟨-, last⟩
    · exact classDecl_none_of_field fieldReads
    · rcases exists_noDeclaration last with ⟨_, _, modifiersRead, no⟩
      exact no.classDecl_none modifiersRead

/-! ## Packages -/

theorem modifiers_of_annotations
    (reads : Reads takeLexeme Rule.body (.many (.rule .annotationUse)) input (some (nodes, rest)))
    (behind : Undecorated rest) :
    Reads takeLexeme Rule.body (.rule .modifiers) input (some (nodes, rest)) := by
  refine .rule ?_
  generalize repetition : Grammar.many (.rule Rule.annotationUse) = grammar at reads
  generalize reading : (some (nodes, rest) : Reading (List Lexeme)) = outcome at reads
  induction reads generalizing nodes with
  | manyEnd partNone =>
      cases repetition
      cases reading
      exact .manyEnd behind.noElement
  | manyMore partReads _ _ more =>
      cases repetition
      rcases Reading.after_eq_some_iff.1 reading.symm with ⟨others, rfl, rfl⟩
      exact .manyMore (.choiceFirst partReads) (more rfl rfl)
  | _ => cases repetition

theorem package_none_of_declared
    (reads : Reads takeLexeme Rule.body (declared kind core) input (some (nodes, rest)))
    (separate : (core.first.all fun first => first.apart (.keyword "package")) = true)
    (takes : core.mayTakeNothing Rule.mayBeEmpty = false) :
    Reads takeLexeme Rule.body (.rule .package) input none := by
  rcases Rule.exists_reads .package input with ⟨_ | ⟨left, behind⟩, packageReads⟩
  · exact packageReads
  · rcases packageReads.of_rule.of_branch with ⟨_, partReads, rfl⟩
    rcases partReads.of_seq with ⟨_, _, _, rfl, annotationsRead, wordReads⟩
    have undecorated := undecorated_of_first wordReads (by decide) rfl
    rcases reads.of_branch with ⟨_, declaredReads, rfl⟩
    rcases declaredReads.of_seq with ⟨_, _, _, rfl, modifiersRead, coreReads⟩
    cases modifiersRead.unique (modifiers_of_annotations annotationsRead undecorated)
    -- the word would stand where the declaration goes on
    have refused := coreReads.refuses_of_takes separate takes
    rcases wordReads.of_seq with ⟨_, _, _, rfl, tokenReads, -⟩
    cases tokenReads.unique (.token_of_none refused)

theorem package_none_of_classDecl
    (reads : Reads takeLexeme Rule.body (.rule .classDecl) input (some (nodes, rest))) :
    Reads takeLexeme Rule.body (.rule .package) input none := by
  rcases reads.of_rule.of_choice with ⟨-, enumReads⟩ | ⟨-, typeReads⟩
  · exact package_none_of_declared enumReads (by decide) rfl
  · exact package_none_of_declared typeReads (by decide) rfl

theorem classDecl_none_of_semicolon
    (reads : Reads takeLexeme Rule.body Rule.semicolon input (some (nodes, rest))) :
    Reads takeLexeme Rule.body (.rule .classDecl) input none := by
  have no := noDeclaration_of_first reads (by decide) rfl
  exact no.classDecl_none (.rule (.manyEnd no.noElement))

theorem package_none_of_others
    (reads : Reads takeLexeme Rule.body
      (Rule.all .importDecl >> Rule.all .topLevel >> .token .endOfText) input
        (some (nodes, rest))) :
    Reads takeLexeme Rule.body (.rule .package) input none := by
  rcases reads.of_seq with ⟨_, _, _, rfl, importsRead, behind⟩
  rcases importsRead.of_many with ⟨-, rfl, rfl⟩ | ⟨_, _, _, rfl, importReads, -⟩
  · rcases behind.of_seq with ⟨_, _, _, rfl, typesRead, endReads⟩
    rcases typesRead.of_many with ⟨-, rfl, rfl⟩ | ⟨_, _, _, rfl, typeReads, -⟩
    · exact endReads.none_of_apart (by decide) rfl rfl
    · rcases typeReads.of_rule.of_choice with ⟨-, classReads⟩ | ⟨-, semicolonReads⟩
      · exact package_none_of_classDecl classReads
      · exact semicolonReads.none_of_apart (by decide) rfl rfl
  · exact importReads.none_of_apart (by decide) rfl rfl

end Verbatim.Java
