import Verbatim.Proofs.Java.Declarations

/-! Bodies, members and whole files without some of their annotations. Bodies hold members and
members have bodies, so that is shown for members of any size at once. -/

namespace Verbatim.Java

open Node (withoutAll)
open Grammar (punctuation identifier keyword separated)
open Rule (declared enumCore typeCore)

/-- No class body stands here. -/
def NoBody (input : List Lexeme) : Prop :=
  Reads takeLexeme Rule.body (.rule .classBody) input none

/-- What does not stand at the front does not stand there afterwards. -/
structure Keeps (input changed : List Lexeme) : Prop where
  value : NoValue input → NoValue changed
  body : NoBody input → NoBody changed
  semicolon : Refuses ";" input → Refuses ";" changed

theorem noBody_of_refuses {input : List Lexeme} (refuses : Refuses "\x7b" input) : NoBody input :=
  .rule (.branch (.seqNone (.token_of_none refuses)))

theorem noValue_of_refuses {input : List Lexeme} (noSign : Refuses "@" input)
    (noName : takeLexeme .identifier input = none) : NoValue input :=
  (noValue_iff_of_unannotated (unannotated_of_refuses noSign)).2 noName

section

variable {gone : Node → Bool} {size : Nat} {input between rest : List Lexeme}
  {nodes others : List Node}

/-- Annotations can be left out of all members up to some size. -/
def MembersThin (gone : Node → Bool) (size : Nat) : Prop :=
  ∀ {input rest : List Lexeme} {nodes : List Node}, input.length < size →
    Reads takeLexeme Rule.body (.rule .member) input (some (nodes, rest)) →
    Thins gone Anything (Keeps input) (.rule .member) input nodes rest

variable (only : OnlyAnnotations gone) (members : MembersThin gone size)

include members in
theorem members_thins (small : input.length < size)
    (reads : Reads takeLexeme Rule.body (.many (.rule .member)) input (some (nodes, rest))) :
    Thins gone (fun other => Reads takeLexeme Rule.body (.rule .member) other none ∧
      Keeps rest other)
      (Keeps input) (.many (.rule .member)) input nodes rest := by
  cases size with
  | zero => exact absurd small (Nat.not_lt_zero _)
  | succ bound =>
      exact Thins.many Keeps rfl (Nat.le_of_lt_succ small) (fun shorter memberReads =>
        .inl ((members (Nat.lt_succ_of_le shorter) memberReads).mono (fun _ _ => trivial)
          fun _ _ keeps => keeps)) reads

/-- What stands behind the last member. -/
structure EndsMembers (input changed : List Lexeme) : Prop where
  noMember : Reads takeLexeme Rule.body (.rule .member) changed none
  keeps : Keeps input changed
  ends : EndsAnnotation changed
  noComma : Refuses "," changed

theorem endsMembers_of_closing
    (reads : Reads takeLexeme Rule.body (punctuation "\x7d") between (some (nodes, rest))) :
    EndsMembers input between := by
  refine ⟨reads.none_of_apart (by decide) rfl rfl, ⟨fun _ => ?_, fun _ => ?_, fun _ => ?_⟩,
    ⟨?_, ?_⟩, ?_⟩
  · exact noValue_of_refuses (reads.refuses_of_takes (by decide) rfl)
      (reads.refuses_of_takes (by decide) rfl)
  · exact noBody_of_refuses (reads.refuses_of_takes (by decide) rfl)
  · exact reads.refuses_of_takes (by decide) rfl
  · exact reads.refuses_of_takes (by decide) rfl
  · exact reads.refuses_of_takes (by decide) rfl
  · exact reads.refuses_of_takes (by decide) rfl

theorem closing_thins (only : OnlyAnnotations gone)
    (reads : Reads takeLexeme Rule.body (punctuation "\x7d") input (some (nodes, rest))) :
    Thins gone Anything (EndsMembers input) (punctuation "\x7d") input nodes rest :=
  (Thins.token (only.stay rfl reads) reads).mono (fun _ any => any)
    fun _ again _ => endsMembers_of_closing again

include only members in
theorem classBody_thins (small : input.length ≤ size)
    (reads : Reads takeLexeme Rule.body (.rule .classBody) input (some (nodes, rest))) :
    Thins gone Anything (SameHead input) (.rule .classBody) input nodes rest := by
  rcases reads.of_rule.of_branch with ⟨_, partReads, rfl⟩
  rcases partReads.of_seq with ⟨_, _, _, rfl, openingReads, behind⟩
  rcases behind.of_seq with ⟨_, _, _, rfl, membersRead, closingReads⟩
  have shorter := (openingReads.rest_length Rule.mayBeEmpty_sound).2 rfl
  exact .rule (.branch ((Thins.token (only.stay rfl openingReads) openingReads).seq
    ((members_thins members (Nat.lt_of_lt_of_le shorter small) membersRead).seq
      (closing_thins only closingReads) fun _ ends => ⟨ends.noMember, ends.keeps⟩)
      fun _ _ => trivial)
    (only.grown (by decide) _))

/-! ## Enumerations -/

theorem annotations_thins (only : OnlyAnnotations gone)
    (reads : Reads takeLexeme Rule.body (.many (.rule .annotationUse)) input (some (nodes, rest))) :
    Thins gone (fun other => Reads takeLexeme Rule.body (.rule .annotationUse) other none ∧
      EndsAnnotation other) Anything (.many (.rule .annotationUse)) input nodes rest := by
  refine (Thins.many (fun _ changed => EndsAnnotation changed) rfl (Nat.le_refl _)
    (fun _ elementReads => ?_) reads).mono (fun _ isNext => isNext) fun _ _ _ => trivial
  rcases annotation_thins only elementReads with thins | missing
  · exact .inl (thins.mono (fun _ ends => ends) fun _ again _ =>
      ⟨again.refuses_of_takes (by decide) rfl, again.refuses_of_takes (by decide) rfl⟩)
  · exact .inr ⟨missing, fun _ ends => ends⟩

def EndsValue (input changed : List Lexeme) : Prop :=
  EndsAnnotation changed ∧ (NoBody input → NoBody changed)

include only members in
theorem enumValue_thins (small : input.length ≤ size)
    (reads : Reads takeLexeme Rule.body (.rule .enumValue) input (some (nodes, rest))) :
    Thins gone (EndsValue rest) Anything (.rule .enumValue) input nodes rest := by
  rcases reads.of_rule.of_branch with ⟨_, partReads, rfl⟩
  rcases partReads.of_seq with ⟨_, named, _, rfl, annotationsRead, namedReads⟩
  rcases namedReads.of_seq with ⟨_, behindName, _, rfl, nameReads, behind⟩
  rcases behind.of_seq with ⟨_, beforeBody, bodyNodes, rfl, argumentsRead, bodyReads⟩
  have short : beforeBody.length ≤ size := by
    have one := (annotationsRead.rest_length Rule.mayBeEmpty_sound).1
    have two := (nameReads.rest_length Rule.mayBeEmpty_sound).1
    have three := (argumentsRead.rest_length Rule.mayBeEmpty_sound).1
    omega
  have name := (Thins.token (only.stay rfl nameReads) nameReads).mono (fun _ any => any)
    fun _ again _ => And.intro (unannotated_of_refuses (again.refuses_of_takes (by decide) rfl))
      (⟨again.refuses_of_takes (by decide) rfl, again.refuses_of_takes (by decide) rfl⟩ :
        EndsAnnotation _)
  have body : Thins gone (EndsValue rest) EndsAnnotation (.optional (.rule .classBody)) beforeBody
      bodyNodes rest :=
    .optional bodyReads (fun someReads => (classBody_thins only members short someReads).mono
        (fun _ _ => trivial) fun _ again _ =>
          ⟨again.refuses_of_takes (by decide) rfl,
            again.refuses_of_takes (by decide) rfl⟩)
      fun missing here other ends => ⟨ends.2 (here ▸ missing), ends.1⟩
  have arguments := brackets_thins only rfl rfl (by decide)
    (fun reads => (parenGroup_fits reads).imp fun _ fits => ⟨fits.1, fits.2.2⟩) argumentsRead
  exact .rule (.branch ((annotations_thins only annotationsRead).seq (name.seq (arguments.seq body
    fun _ ends => ends) fun _ _ => trivial) fun _ ends => ends) (only.grown (by decide) _))

def EndsValues (input changed : List Lexeme) : Prop :=
  Keeps input changed ∧ EndsAnnotation changed ∧ Refuses "," changed

theorem endsValues_of_members {changed other : List Lexeme} {left : List Node}
    (ends : EndsMembers rest other)
    (reads : Reads takeLexeme Rule.body (.many (.rule .member)) changed (some (left, other)))
    (keeps : Keeps input changed) : EndsValues input changed := by
  refine ⟨keeps, ⟨?_, ?_⟩, ?_⟩
  · exact reads.refuses (by decide) fun _ => ends.ends.1
  · exact reads.refuses (by decide) fun _ => ends.ends.2
  · exact reads.refuses (by decide) fun _ => ends.noComma

theorem lastComma_thins (only : OnlyAnnotations gone)
    (noMore : Reads takeLexeme Rule.body (.seq (punctuation ",") (.rule .enumValue)) input none)
    (reads : Reads takeLexeme Rule.body (.optional (punctuation ",")) input (some (nodes, rest))) :
    Thins gone (EndsValues rest) (fun changed =>
      Reads takeLexeme Rule.body (.seq (punctuation ",") (.rule .enumValue)) changed none ∧
        EndsValue input changed) (.optional (punctuation ",")) input nodes rest := by
  refine .optional reads (fun someReads => ?_) fun _ here other ends => ?_
  · have noValue : NoValue rest := by
      rcases noMore.of_seq_none with noComma | ⟨_, _, commaReads, valueNone⟩
      · cases noComma.unique someReads
      · cases commaReads.unique someReads
        exact valueNone
    refine (Thins.token (only.stay rfl someReads) someReads).mono (fun _ _ => trivial)
      fun ends again _ => ⟨.seq_none again (ends.1.value noValue), ⟨?_, ?_⟩, fun _ => ?_⟩
    · exact again.refuses_of_takes (by decide) rfl
    · exact again.refuses_of_takes (by decide) rfl
    · exact noBody_of_refuses (again.refuses_of_takes (by decide) rfl)
  · subst here
    exact ⟨.token_of_none ends.2.2, .seqNone (.token_of_none ends.2.2), ends.2.1, ends.1.body⟩

include only members in
theorem nextValue_thins (small : input.length ≤ size)
    (reads : Reads takeLexeme Rule.body (.seq (punctuation ",") (.rule .enumValue)) input
      (some (nodes, rest))) :
    Thins gone (EndsValue rest) (EndsValue input) (.seq (punctuation ",") (.rule .enumValue)) input
      nodes rest := by
  rcases reads.of_seq with ⟨_, _, _, rfl, commaReads, valueReads⟩
  have shorter := (commaReads.rest_length Rule.mayBeEmpty_sound).1
  refine ((Thins.token (only.stay rfl commaReads) commaReads).seq (enumValue_thins only members
    (Nat.le_trans shorter small) valueReads) fun _ _ => trivial).mono (fun _ ends => ends)
    fun _ again _ => ⟨⟨?_, ?_⟩, fun _ => noBody_of_refuses ?_⟩
  · exact again.refuses_of_takes (by decide) rfl
  · exact again.refuses_of_takes (by decide) rfl
  · exact again.refuses_of_takes (by decide) rfl

include only members in
theorem enumValues_thins (small : input.length ≤ size)
    (reads : Reads takeLexeme Rule.body (.rule .enumValues) input (some (nodes, rest))) :
    Thins gone (EndsValues rest) Anything (.rule .enumValues) input nodes rest := by
  rcases reads.of_rule.of_seq with ⟨_, _, _, rfl, separatedReads, commaReads⟩
  rcases separatedReads.of_seq with ⟨_, _, _, rfl, firstReads, moreReads⟩
  have short := Nat.le_trans (firstReads.rest_length Rule.mayBeEmpty_sound).1 small
  have more := Thins.many EndsValue rfl short
    (fun shorter elementReads => .inl (nextValue_thins only members shorter elementReads)) moreReads
  exact .rule (((enumValue_thins only members small firstReads).seq more fun _ ends => ends).seq
    (lastComma_thins only moreReads.none_behind_many commaReads) fun _ ends => ends)

include only members in
theorem optionalValues_thins (small : input.length ≤ size)
    (reads : Reads takeLexeme Rule.body (.optional (.rule .enumValues)) input
      (some (nodes, rest))) :
    Thins gone (EndsValues rest) Anything (.optional (.rule .enumValues)) input nodes rest := by
  refine .optional reads (fun someReads => enumValues_thins only members small someReads)
    fun missing here other ends => ⟨?_, trivial⟩
  subst here
  rcases missing.of_rule.of_seq_none with noValues | ⟨_, _, -, never⟩
  · rcases noValues.of_seq_none with noValue | ⟨_, _, -, never⟩
    · exact .rule (.seqNone (.seqNone (ends.1.value noValue)))
    · exact absurd never Reads.not_many_none
  · exact absurd never Reads.not_optional_none

theorem semicolon_thins (only : OnlyAnnotations gone)
    (reads : Reads takeLexeme Rule.body (.optional (punctuation ";")) input (some (nodes, rest))) :
    Thins gone (EndsValues rest) (EndsValues input)
      (.optional (punctuation ";")) input nodes rest := by
  refine .optional reads (fun someReads => ?_) fun missing here other ends => ?_
  · refine (Thins.token (only.stay rfl someReads) someReads).mono (fun _ _ => trivial)
      fun _ again same => ⟨⟨fun _ => ?_, fun _ => ?_, ?_⟩, ⟨?_, ?_⟩, ?_⟩
    · exact noValue_of_refuses (again.refuses_of_takes (by decide) rfl)
        (again.refuses_of_takes (by decide) rfl)
    · exact noBody_of_refuses (again.refuses_of_takes (by decide) rfl)
    · exact (same.takeLexeme_eq_none_iff _).2
    · exact again.refuses_of_takes (by decide) rfl
    · exact again.refuses_of_takes (by decide) rfl
    · exact again.refuses_of_takes (by decide) rfl
  · subst here
    exact ⟨.token_of_none (ends.1.semicolon missing.of_token_none), ends⟩

include only members in
theorem enumBody_thins (small : input.length ≤ size)
    (reads : Reads takeLexeme Rule.body (.rule .enumBody) input (some (nodes, rest))) :
    Thins gone Anything (SameHead input) (.rule .enumBody) input nodes rest := by
  rcases reads.of_rule.of_branch with ⟨_, partReads, rfl⟩
  rcases partReads.of_seq with ⟨_, inside, _, rfl, openingReads, behind⟩
  rcases behind.of_seq with ⟨_, behindMembers, _, rfl, contentReads, closingReads⟩
  rcases contentReads.of_seq with ⟨valueNodes, behindValues, _, rfl, valuesRead, behindReads⟩
  rcases behindReads.of_seq with ⟨_, behindSemicolon, memberNodes, rfl, semicolonReads, membersRead⟩
  have shorter := (openingReads.rest_length Rule.mayBeEmpty_sound).2 rfl
  have notLonger := (valuesRead.rest_length Rule.mayBeEmpty_sound).1
  have still := (semicolonReads.rest_length Rule.mayBeEmpty_sound).1
  have values := optionalValues_thins only members (by omega) valuesRead
  have content := (members_thins members (by omega) membersRead).mono
    (fun _ ends => ⟨ends.noMember, ends.keeps⟩) endsValues_of_members
  exact .rule (.branch ((Thins.token (only.stay rfl openingReads) openingReads).seq
    ((values.seq ((semicolon_thins only semicolonReads).seq content fun _ ends => ends)
      fun _ ends => ends).seq (closing_thins only closingReads) fun _ ends => ends)
    fun _ _ => trivial) (only.grown (by decide) _))

/-! ## Members -/

theorem shows_of_braces {name : Rule} {part : Grammar Rule}
    (is : Rule.body name = .branch .block (.seq (punctuation "\x7b") part))
    (reads : Reads takeLexeme Rule.body (.rule name) input (some (nodes, rest))) :
    Shows (shownBy "\x7b") input := by
  have bodyReads := reads.of_rule
  rw [is] at bodyReads
  rcases bodyReads.of_branch with ⟨_, partReads, rfl⟩
  rcases partReads.of_seq with ⟨_, _, _, rfl, openingReads, -⟩
  exact shows_of_punctuation openingReads

include only members in
theorem enumDecl_thins (small : input.length ≤ size)
    (reads : Reads takeLexeme Rule.body (declared .classDecl enumCore) input (some (nodes, rest))) :
    Thins gone Anything (fun changed => NoValue input → NoValue changed)
      (declared .classDecl enumCore) input nodes rest := by
  refine declared_branch_thins only (by decide) undecorated_enumCore reads fun short coreReads => ?_
  rcases coreReads.of_seq with ⟨_, _, _, rfl, keywordReads, behind⟩
  rcases behind.of_seq with ⟨_, _, _, rfl, nameReads, behindName⟩
  rcases behindName.of_seq with ⟨_, _, _, rfl, supertypesRead, bodyReads⟩
  have headReads : Reads takeLexeme Rule.body
      (.seq (.seq (keyword "enum") identifier) (.many (.rule .supertypes))) _ _ :=
    .seq (.seq keywordReads nameReads) supertypesRead
  have shorter := (headReads.rest_length Rule.mayBeEmpty_sound).2 rfl
  have head := (marked_thins only (stopping_signature (by decide)) rfl rfl headReads
    (shows_of_braces rfl bodyReads)).mono (fun _ there => there) fun _ _ same => same shorter
  have body := (enumBody_thins only members (by omega) bodyReads).mono (fun _ any => any)
    fun _ again _ => shows_of_braces rfl again
  have thins := (head.seq body fun _ there => there).assoc.assoc
  rwa [List.append_assoc, List.append_assoc] at thins

include only members in
theorem typeDecl_thins (small : input.length ≤ size)
    (reads : Reads takeLexeme Rule.body (declared .classDecl typeCore) input (some (nodes, rest))) :
    Thins gone Anything (fun changed => NoValue input → NoValue changed)
      (declared .classDecl typeCore) input nodes rest := by
  refine declared_branch_thins only (by decide) undecorated_typeCore reads fun short coreReads => ?_
  rcases coreReads.of_seq with ⟨_, _, _, rfl, keywordReads, behind⟩
  rcases behind.of_seq with ⟨_, _, _, rfl, nameReads, behindName⟩
  rcases behindName.of_seq with ⟨_, _, _, rfl, parametersRead, behindParameters⟩
  rcases behindParameters.of_seq with ⟨_, _, _, rfl, supertypesRead, bodyReads⟩
  have headReads : Reads takeLexeme Rule.body
      (.seq (.seq (.seq (.rule .classKeyword) identifier) (.optional (.rule .typeParameters)))
        (.many (.rule .supertypes))) _ _ :=
    .seq (.seq (.seq keywordReads nameReads) parametersRead) supertypesRead
  have shorter := (headReads.rest_length Rule.mayBeEmpty_sound).2 rfl
  have head := (marked_thins only (stopping_signature (by decide)) rfl rfl headReads
    (shows_of_braces rfl bodyReads)).mono (fun _ there => there) fun _ _ same => same shorter
  have body := (classBody_thins only members (by omega) bodyReads).mono (fun _ any => any)
    fun _ again _ => shows_of_braces rfl again
  have thins := (head.seq body fun _ there => there).assoc.assoc.assoc
  rwa [List.append_assoc, List.append_assoc, List.append_assoc] at thins

include only members in
theorem classDecl_thins (small : input.length ≤ size)
    (reads : Reads takeLexeme Rule.body (.rule .classDecl) input (some (nodes, rest))) :
    Thins gone Anything (fun changed => NoValue input → NoValue changed) (.rule .classDecl) input
      nodes rest := by
  rcases reads.of_rule.of_choice with ⟨-, enumReads⟩ | ⟨-, typeReads⟩
  · exact .rule (.choice_first (enumDecl_thins only members small enumReads))
  · exact .rule (.choice_second (typeDecl_thins only members small typeReads) fun again =>
      none_of_declared again enumCore_none_of_typeCore)

theorem block_thins (only : OnlyAnnotations gone)
    (reads : Reads takeLexeme Rule.body (.rule .block) input (some (nodes, rest))) :
    Thins gone Anything (Keeps input) (.rule .block) input nodes rest := by
  rcases block_fits reads with ⟨region, rfl, isRegion, fits⟩
  rw [Thins, Node.withoutAll_of_everywhere nodes (only.stay rfl reads)]
  refine ⟨region, region, rfl, .refl _, fun other any => ⟨fits other any, ?_, ?_, ?_⟩⟩
  · exact fun _ => noValue_of_refuses
      ((fits other any).refuses_of_takes (by decide) rfl)
      ((fits other any).refuses_of_takes (by decide) rfl)
  · -- what is no class body here is none anywhere
    exact fun noBody => classBody_none isRegion noBody other
  · exact fun _ => (fits other any).refuses_of_takes (by decide) rfl

theorem initializer_thins (only : OnlyAnnotations gone)
    (reads : Reads takeLexeme Rule.body (.rule .initializer) input (some (nodes, rest))) :
    Thins gone Anything (Keeps input) (.rule .initializer) input nodes rest := by
  rcases reads.of_rule.of_choice with ⟨-, staticReads⟩ | ⟨-, blockReads⟩
  · rcases staticReads.of_branch with ⟨_, partReads, rfl⟩
    rcases partReads.of_seq with ⟨_, _, _, rfl, wordReads, blockReads⟩
    refine .rule (.choice_first (.branch (((Thins.token (only.stay rfl wordReads) wordReads).seq
      (block_thins only blockReads) fun _ _ => trivial).mono (fun _ any => any)
      fun _ again _ => ⟨fun _ => ?_, fun _ => ?_, fun _ => ?_⟩) (only.grown (by decide) _)))
    · exact noValue_of_refuses (again.refuses_of_takes (by decide) rfl)
        (again.refuses_of_takes (by decide) rfl)
    · exact noBody_of_refuses (again.refuses_of_takes (by decide) rfl)
    · exact again.refuses_of_takes (by decide) rfl
  · exact .rule (.choice_second (block_thins only blockReads) fun again => .branch (.seqNone
      (.token_of_none (again.refuses_of_takes (by decide) rfl))))

theorem semicolonMember_thins (only : OnlyAnnotations gone)
    (reads : Reads takeLexeme Rule.body Rule.semicolon input (some (nodes, rest))) :
    Thins gone Anything (Keeps input) Rule.semicolon input nodes rest := by
  refine (Thins.token (only.stay rfl reads) reads).mono (fun _ any => any)
    fun _ again same => ⟨fun _ => ?_, fun _ => ?_, (same.takeLexeme_eq_none_iff _).2⟩
  · exact noValue_of_refuses (again.refuses_of_takes (by decide) rfl)
      (again.refuses_of_takes (by decide) rfl)
  · exact noBody_of_refuses (again.refuses_of_takes (by decide) rfl)

theorem keeps_of_declaration {grammar : Grammar Rule} {changed other : List Lexeme}
    {left : List Node}
    (reads : Reads takeLexeme Rule.body grammar changed (some (left, other)))
    (separate : ([Wanted.punctuation "\x7b", .punctuation ";"].all fun wanted =>
      grammar.first.all fun first => first.apart wanted) = true)
    (takes : grammar.mayTakeNothing Rule.mayBeEmpty = false)
    (value : NoValue input → NoValue changed) : Keeps input changed := by
  simp only [List.all_cons, List.all_nil, Bool.and_true, Bool.and_eq_true] at separate
  exact ⟨value, fun _ => noBody_of_refuses (reads.refuses_of_takes separate.1 takes),
    fun _ => reads.refuses_of_takes separate.2 takes⟩

theorem membersThin (only : OnlyAnnotations gone) (size : Nat) : MembersThin gone size := by
  induction size with
  | zero => exact fun small => absurd small (Nat.not_lt_zero _)
  | succ size induction =>
      intro input rest nodes small reads
      have short := Nat.le_of_lt_succ small
      refine .rule ?_
      rcases reads.of_rule.of_choice with ⟨-, classReads⟩ | ⟨-, others⟩
      · exact .choice_first ((classDecl_thins only induction short classReads).mono
          (fun _ any => any) fun _ again => keeps_of_declaration again (by decide) rfl)
      · refine .choice_second ?_ classDecl_none_of_others
        rcases others.of_choice with ⟨-, methodReads⟩ | ⟨-, others⟩
        · exact .choice_first ((methodDecl_thins only methodReads).mono
            (fun _ any => any) fun _ again => keeps_of_declaration again (by decide) rfl)
        · refine .choice_second ?_ methodDecl_none_of_others
          rcases others.of_choice with ⟨-, fieldReads⟩ | ⟨-, others⟩
          · exact .choice_first ((fieldDecl_thins only fieldReads).mono
              (fun _ any => any) fun _ again => keeps_of_declaration again (by decide) rfl)
          · refine .choice_second ?_ fieldDecl_none_of_others
            rcases others.of_choice with ⟨-, initializerReads⟩ | ⟨-, semicolonReads⟩
            · exact .choice_first (initializer_thins only initializerReads)
            · exact .choice_second (semicolonMember_thins only semicolonReads)
                initializer_none_of_others

/-! ## Files -/

theorem package_thins (only : OnlyAnnotations gone)
    (reads : Reads takeLexeme Rule.body (.rule .package) input (some (nodes, rest))) :
    Thins gone Anything Anything (.rule .package) input nodes rest := by
  rcases reads.of_rule.of_branch with ⟨_, partReads, rfl⟩
  rcases partReads.of_seq with ⟨_, _, _, rfl, annotationsRead, behind⟩
  rcases behind.of_seq with ⟨_, _, _, rfl, wordReads, behindWord⟩
  rcases behindWord.of_seq with ⟨_, _, _, rfl, nameReads, semicolonReads⟩
  have closed : Reads takeLexeme Rule.body
      (.seq (.seq (keyword "package") (.rule .qualifiedName)) (punctuation ";")) _ _ :=
    .seq (.seq wordReads nameReads) semicolonReads
  have name := (closed_thins only (stopping_signature (by decide)) rfl rfl closed).assoc.mono
    (fun _ any => any) fun _ again _ => And.intro
      (unannotated_of_refuses (again.refuses_of_takes (by decide) rfl))
      (⟨again.refuses_of_takes (by decide) rfl, again.refuses_of_takes (by decide) rfl⟩ :
        EndsAnnotation _)
  rw [List.append_assoc] at name
  exact .rule (.branch ((annotations_thins only annotationsRead).seq name fun _ ends => ends)
    (only.grown (by decide) _))

theorem importDecl_thins (only : OnlyAnnotations gone)
    (reads : Reads takeLexeme Rule.body (.rule .importDecl) input (some (nodes, rest))) :
    Thins gone Anything Anything (.rule .importDecl) input nodes rest := by
  rcases reads.of_rule.of_branch with ⟨_, partReads, rfl⟩
  rcases partReads.of_seq with ⟨_, _, _, rfl, wordReads, behind⟩
  rcases behind.of_seq with ⟨_, _, _, rfl, staticReads, behindStatic⟩
  rcases behindStatic.of_seq with ⟨_, _, _, rfl, nameReads, semicolonReads⟩
  have closed : Reads takeLexeme Rule.body
      (.seq (.seq (.seq (keyword "import") (.optional (keyword "static"))) (.rule .importName))
        (punctuation ";")) _ _ :=
    .seq (.seq (.seq wordReads staticReads) nameReads) semicolonReads
  have name := (closed_thins only (stopping_signature (by decide)) rfl rfl closed).assoc.assoc.mono
    (fun _ any => any) fun _ _ _ => trivial
  rw [List.append_assoc, List.append_assoc] at name
  exact .rule (.branch name (only.grown (by decide) _))

theorem topLevel_thins (only : OnlyAnnotations gone)
    (reads : Reads takeLexeme Rule.body (.rule .topLevel) input (some (nodes, rest))) :
    Thins gone Anything Anything (.rule .topLevel) input nodes rest := by
  rcases reads.of_rule.of_choice with ⟨-, classReads⟩ | ⟨-, semicolonReads⟩
  · exact .rule (.choice_first ((classDecl_thins only (membersThin only _) (Nat.le_refl _)
      classReads).mono (fun _ any => any) fun _ _ _ => trivial))
  · exact .rule (.choice_second ((semicolonMember_thins only semicolonReads).mono
      (fun _ any => any) fun _ _ _ => trivial) classDecl_none_of_semicolon)

theorem optionalPackage_thins (only : OnlyAnnotations gone)
    (reads : Reads takeLexeme Rule.body (.optional (.rule .package)) input (some (nodes, rest))) :
    Thins gone (fun other => Reads takeLexeme Rule.body (.rule .package) other none) Anything
      (.optional (.rule .package)) input nodes rest :=
  .optional reads (fun someReads => (package_thins only someReads).mono (fun _ _ => trivial)
    fun _ _ any => any) fun _ _ _ missing => ⟨missing, trivial⟩

theorem imports_thins (only : OnlyAnnotations gone)
    (reads : Reads takeLexeme Rule.body (.many (.rule .importDecl)) input (some (nodes, rest))) :
    Thins gone (fun other => Reads takeLexeme Rule.body (.rule .importDecl) other none) Anything
      (.many (.rule .importDecl)) input nodes rest :=
  (Thins.many (fun _ _ => True) rfl (Nat.le_refl _) (fun _ importReads =>
    .inl ((importDecl_thins only importReads).mono (fun _ _ => trivial) fun _ _ _ => trivial))
    reads).mono (fun _ missing => ⟨missing, trivial⟩) fun _ _ _ => trivial

theorem compilationUnit_thins (only : OnlyAnnotations gone)
    (reads : Reads takeLexeme Rule.body (.rule .compilationUnit) input (some (nodes, rest))) :
    Thins gone Anything Anything (.rule .compilationUnit) input nodes rest := by
  rcases reads.of_rule.of_branch with ⟨_, partReads, rfl⟩
  rcases partReads.of_seq with ⟨_, _, _, rfl, packageReads, behind⟩
  rcases behind.of_seq with ⟨_, _, _, rfl, importsRead, behindImports⟩
  rcases behindImports.of_seq with ⟨_, _, _, rfl, typesRead, endReads⟩
  have end_ := (Thins.token (only.stay rfl endReads) endReads).mono (fun _ any => any)
    fun _ again _ => And.intro
      (again.none_of_apart (by decide) rfl rfl :
        Reads takeLexeme Rule.body (.rule .topLevel) _ none) trivial
  have types := (Thins.many (fun _ _ => True) rfl (Nat.le_refl _) (fun _ typeReads =>
    .inl ((topLevel_thins only typeReads).mono (fun _ _ => trivial) fun _ _ _ => trivial))
    typesRead).seq end_ fun _ ends => ends
  have imports := (imports_thins only importsRead).seq
    (types.mono (fun _ any => any) fun _ again _ =>
    (again.none_of_apart (by decide) rfl rfl :
      Reads takeLexeme Rule.body (.rule .importDecl) _ none)) fun _ ends => ends
  exact .rule
    (.branch ((optionalPackage_thins only packageReads).seq (imports.mono (fun _ any => any)
    fun _ again _ => package_none_of_others again) fun _ missing => missing)
    (only.grown (by decide) _))

end

end Verbatim.Java
