import Verbatim.Proofs.Java.Telling

/-! Declarations without some of their annotations. From the types of parameters up to members and
their bodies, what is left of the tokens is read as what is left of the nodes. -/

namespace Verbatim.Java

open Node (withoutAll)
open Grammar (punctuation identifier keyword separated)
open Rule (declared enumCore typeCore methodHead methodTail methodCore fieldCore parameterCore)

section

variable {gone : Node → Bool} (only : OnlyAnnotations gone) {grammar part : Grammar Rule}
  {kind : Kind} {text : String} {pairs : Pairs} {outer inner : Rule → Bool} {sure : Bool}
  {input between rest : List Lexeme} {nodes others : List Node}

include only

/-! ## Up to a mark -/

theorem marked_thins
    (stopping : Stopping Rule.body Rule.peeked pairs (shownBy text) outer inner)
    (stops : part.stops Rule.peeked pairs (shownBy text) outer inner [] false = some ([], sure))
    (plain : part.IsPlain = true)
    (reads : Reads takeLexeme Rule.body part input (some (nodes, rest)))
    (shows : Shows (shownBy text) rest) :
    Thins gone (Shows (shownBy text)) (fun changed => rest.length < input.length →
      SameHead input changed) part input nodes rest := by
  rcases fits_of_marked stopping stops reads shows with ⟨taken, equal, fits⟩
  exact .of_fits (only.stay plain reads) fits equal

theorem closed_thins
    (stopping : Stopping Rule.body Rule.peeked pairs (shownBy text) outer inner)
    (stops : part.stops Rule.peeked pairs (shownBy text) outer inner [] false = some ([], sure))
    (plain : part.IsPlain = true)
    (reads : Reads takeLexeme Rule.body (.seq part (punctuation text)) input (some (nodes, rest))) :
    Thins gone Anything (SameHead input) (.seq part (punctuation text)) input nodes rest := by
  rcases fits_of_closed stopping stops reads with ⟨inside, last, rfl, -, -, fits⟩
  have both : (Grammar.seq part (punctuation text)).IsPlain = true :=
    Bool.and_eq_true_iff.2 ⟨plain, rfl⟩
  refine (Thins.of_fits (only.stay both reads) fits (by simp)).mono (fun _ any => any)
    fun _ _ same => same (by simp +arith)

theorem declared_branch_thins {core : Grammar Rule} (other : kind ≠ .annotationUse)
    (undecorated : ∀ {input nodes rest},
      Reads takeLexeme Rule.body core input (some (nodes, rest)) → Undecorated input)
    {next : List Lexeme → Prop}
    (reads : Reads takeLexeme Rule.body (declared kind core) input (some (nodes, rest)))
    (thins : ∀ {between nodes}, between.length ≤ input.length →
      Reads takeLexeme Rule.body core between (some (nodes, rest)) →
      Thins gone next (SameHead between) core between nodes rest) :
    Thins gone next (fun changed => NoValue input → NoValue changed)
      (declared kind core) input nodes
      rest := by
  rcases reads.of_branch with ⟨inner, partReads, rfl⟩
  rcases partReads.of_seq with ⟨_, _, _, rfl, modifiersRead, coreReads⟩
  have shorter := (modifiersRead.rest_length Rule.mayBeEmpty_sound).1
  exact .branch (declared_thins only undecorated modifiersRead coreReads (thins shorter coreReads))
    (only.grown other _)

/-! ## Fields and parameters -/

theorem fieldDecl_thins
    (reads : Reads takeLexeme Rule.body (.rule .fieldDecl) input (some (nodes, rest))) :
    Thins gone Anything (fun changed => NoValue input → NoValue changed) (.rule .fieldDecl) input
      nodes rest := by
  refine .rule (declared_branch_thins only (by decide) undecorated_fieldCore reads.of_rule
    fun _ coreReads => ?_)
  rcases coreReads.of_seq with ⟨_, _, _, rfl, typeReads, behind⟩
  rcases behind.of_seq with ⟨_, _, _, rfl, declaratorsRead, semicolonReads⟩
  have closed : Reads takeLexeme Rule.body
      (.seq (.seq (.rule .typeRef) (separated "," (.rule .declarator))) (punctuation ";")) _ _ :=
    .seq (.seq typeReads declaratorsRead) semicolonReads
  have thins := (closed_thins only stopping_value rfl rfl closed).assoc
  rwa [List.append_assoc] at thins

theorem parameter_thins
    (reads : Reads takeLexeme Rule.body (.rule .parameter) input (some (nodes, rest))) :
    Thins gone EndsType Anything (.rule .parameter) input nodes rest := by
  refine .rule ((declared_branch_thins only (by decide) undecorated_parameterCore reads.of_rule
    fun _ coreReads => ?_).mono (fun _ ends => ends) fun _ _ _ => trivial)
  rcases coreReads.of_seq with ⟨_, behindType, _, rfl, typeReads, behind⟩
  rcases behind.of_seq with ⟨ellipsisNodes, behindEllipsis, _, rfl, ellipsisReads, named⟩
  rcases named.of_seq with ⟨_, _, _, rfl, nameReads, dimensionsReads⟩
  have ellipsis : Thins gone (fun other => EndsType other ∧ Refuses "..." other) EndsType
      (.optional (punctuation "...")) behindType ellipsisNodes behindEllipsis :=
    .optional ellipsisReads
      (fun someReads => (Thins.token (only.stay rfl someReads) someReads).mono (fun _ _ => trivial)
        fun _ again _ => endsType_of_first again (by decide) rfl)
      fun _ _ other isNext => ⟨.token_of_none isNext.2, isNext.1⟩
  have name := (Thins.token (only.stay rfl nameReads) nameReads).mono (fun _ any => any)
    fun _ again _ => And.intro (endsType_of_first again (by decide) rfl)
      (again.refuses_of_takes (by decide) rfl : Refuses "..." _)
  exact (typeRef_thins only typeReads).seq (ellipsis.seq
    (name.seq (dimensions_thins only dimensionsReads) fun _ _ => trivial) fun _ isNext => isNext)
    fun _ ends => ends

def EndsParameters (input : List Lexeme) : Prop :=
  EndsType input ∧ Refuses "," input ∧ Reads takeLexeme Rule.body (.rule .parameterList) input none

theorem parameterList_thins
    (reads : Reads takeLexeme Rule.body (.rule .parameterList) input (some (nodes, rest))) :
    Thins gone EndsParameters Anything (.rule .parameterList) input nodes rest := by
  rcases reads.of_rule.of_seq with ⟨_, _, _, rfl, firstReads, moreReads⟩
  refine .rule
    ((parameter_thins only firstReads).seq ((Thins.many (fun _ changed => EndsType changed)
    rfl (Nat.le_refl _) (fun _ elementReads => .inl ?_) moreReads).mono (fun other ends =>
      ⟨.seqNone (.token_of_none ends.2.1), ends.1⟩) fun _ _ ends => ends) fun _ ends => ends)
  rcases elementReads.of_seq with ⟨_, _, _, rfl, commaReads, parameterReads⟩
  exact ((Thins.token (only.stay rfl commaReads) commaReads).mono (fun _ any => any)
    fun _ again _ => endsType_of_first again (by decide) rfl).seq
      (parameter_thins only parameterReads)
    fun _ _ => trivial

theorem parameters_thins
    (reads : Reads takeLexeme Rule.body (.rule .parameters) input (some (nodes, rest))) :
    Thins gone Anything (SameHead input) (.rule .parameters) input nodes rest := by
  rcases reads.of_rule.of_branch with ⟨_, partReads, rfl⟩
  rcases partReads.of_seq with ⟨_, inside, _, rfl, openingReads, behind⟩
  rcases behind.of_seq with ⟨listNodes, behindList, _, rfl, listReads, closingReads⟩
  have list : Thins gone EndsParameters Anything (.optional (.rule .parameterList)) inside listNodes
      behindList :=
    .optional listReads (fun someReads => parameterList_thins only someReads)
      fun _ _ other ends => ⟨ends.2.2, trivial⟩
  have closing := (Thins.token (only.stay rfl closingReads) closingReads).mono (fun _ any => any)
    fun _ again _ =>
      (⟨endsType_of_first again (by decide) rfl, again.refuses_of_takes (by decide) rfl,
      again.none_of_apart (by decide) rfl rfl⟩ : EndsParameters _)
  exact .rule (.branch ((Thins.token (only.stay rfl openingReads) openingReads).seq
    (list.seq closing fun _ ends => ends) fun _ _ => trivial) (only.grown (by decide) _))

/-! ## Methods -/

omit only in
/-- What stands in front of a block reads the block as well if it can, so a default value does not
stand in front of one. -/
theorem defaultValue_none
    (reads : Reads takeLexeme Rule.body (.optional (.rule .defaultValue)) input
      (some (nodes, between)))
    (blockReads : Reads takeLexeme Rule.body (.rule .block) between (some (others, rest))) :
    Reads takeLexeme Rule.body (.rule .defaultValue) input none ∧ nodes = [] ∧ between = input := by
  rcases reads.of_optional with someReads | missing
  · rcases someReads.of_rule.of_branch with ⟨_, valueReads, rfl⟩
    rcases valueReads.of_seq with ⟨_, _, _, rfl, -, expressionReads⟩
    rcases expressionReads.of_rule.of_branch with ⟨_, itemsRead, rfl⟩
    rcases itemsRead.of_seq with ⟨_, _, _, rfl, -, moreReads⟩
    rcases exists_expressionItem blockReads with ⟨items, itemReads⟩
    cases moreReads.none_behind_many.unique itemReads
  · exact missing

omit only in
theorem shows_of_block
    (reads : Reads takeLexeme Rule.body (.rule .block) input (some (nodes, rest))) :
    Shows (shownBy "\x7b") input := by
  rcases block_fits reads with ⟨region, rfl, isRegion, -⟩
  rcases isRegion.parts with ⟨first, inside, last, rfl, opens, -⟩
  exact shows_of_shape opens _

omit only in
theorem shows_of_punctuation
    (reads : Reads takeLexeme Rule.body (punctuation text) input (some (nodes, rest))) :
    Shows (shownBy text) input := by
  rcases reads.of_token with ⟨token, _, rfl, accepted, -⟩
  exact shows_of_shape (shape_of_accepts accepted) _

theorem methodTail_thins_of_block {behindDefault : List Lexeme} {defaultNodes bodyNodes : List Node}
    (frontReads : Reads takeLexeme Rule.body (.seq (.rule .dimensions) (.optional (.rule .throws)))
      input (some (nodes, between)))
    (defaultReads : Reads takeLexeme Rule.body (.optional (.rule .defaultValue)) between
      (some (defaultNodes, behindDefault)))
    (blockReads : Reads takeLexeme Rule.body (.rule .block) behindDefault
      (some (bodyNodes, rest))) :
    Thins gone Anything Anything methodTail input (nodes ++ (defaultNodes ++ bodyNodes)) rest := by
  rcases defaultValue_none defaultReads blockReads with ⟨missing, rfl, rfl⟩
  have shows := shows_of_block blockReads
  have front := marked_thins only (stopping_signature (by decide)) rfl rfl frontReads shows
  have default_ : Thins gone (Shows (shownBy "\x7b")) (Shows (shownBy "\x7b"))
      (.optional (.rule .defaultValue)) behindDefault [] behindDefault :=
    .optional defaultReads (fun someReads => nomatch someReads.unique missing)
      fun _ _ other there =>
      ⟨.rule (.branch (.seqNone (.token_of_none (takeLexeme_of_shown there (by decide))))), there⟩
  rcases block_fits blockReads with ⟨region, equal, -, fits⟩
  have body := (Thins.of_fits (only.stay rfl blockReads) fits equal).mono (fun _ any => any)
    fun _ again _ => shows_of_block again
  exact (front.seq (default_.seq (.rule (.choice_first body)) fun _ there => there)
    fun _ there => there).assoc.mono (fun _ any => any) fun _ _ _ => trivial

theorem methodTail_thins_of_semicolon {bodyNodes : List Node}
    (frontReads : Reads takeLexeme Rule.body
      (.seq (.seq (.rule .dimensions) (.optional (.rule .throws)))
        (.optional (.rule .defaultValue)))
      input (some (nodes, between)))
    (semicolonReads : Reads takeLexeme Rule.body (punctuation ";") between
      (some (bodyNodes, rest))) :
    Thins gone Anything Anything methodTail input (nodes ++ bodyNodes) rest := by
  have shows := shows_of_punctuation semicolonReads
  have front := marked_thins only stopping_value rfl rfl frontReads shows
  have body := (Thins.token (only.stay rfl semicolonReads) semicolonReads).mono (fun _ any => any)
    fun _ again _ => shows_of_punctuation again
  exact (front.seq (.rule (.choice_second body fun again => again.none_of_apart (by decide)
    rfl rfl)) fun _ there => there).assoc.assoc.mono (fun _ any => any) fun _ _ _ => trivial

theorem methodTail_thins
    (reads : Reads takeLexeme Rule.body methodTail input (some (nodes, rest))) :
    Thins gone Anything Anything methodTail input nodes rest := by
  rcases reads.of_seq with ⟨_, _, _, rfl, dimensionsReads, behind⟩
  rcases behind.of_seq with ⟨_, _, _, rfl, throwsReads, behindThrows⟩
  rcases behindThrows.of_seq with ⟨_, _, _, rfl, defaultReads, bodyReads⟩
  rcases bodyReads.of_rule.of_choice with ⟨-, blockReads⟩ | ⟨-, semicolonReads⟩
  · have thins := methodTail_thins_of_block only (.seq dimensionsReads throwsReads) defaultReads
      blockReads
    rwa [List.append_assoc] at thins
  · have thins := methodTail_thins_of_semicolon only
      (.seq (.seq dimensionsReads throwsReads) defaultReads) semicolonReads
    rwa [List.append_assoc, List.append_assoc] at thins

theorem methodDecl_thins
    (reads : Reads takeLexeme Rule.body (.rule .methodDecl) input (some (nodes, rest))) :
    Thins gone Anything (fun changed => NoValue input → NoValue changed) (.rule .methodDecl) input
      nodes rest := by
  refine .rule (declared_branch_thins only (by decide) undecorated_methodCore reads.of_rule
    fun _ coreReads => ?_)
  rcases coreReads.of_seq with ⟨_, _, _, rfl, typeParametersRead, behind⟩
  rcases behind.of_seq with ⟨_, _, _, rfl, typeReads, named⟩
  rcases named.of_seq with ⟨_, _, _, rfl, nameReads, behindName⟩
  rcases behindName.of_seq with ⟨_, _, _, rfl, parametersRead, tailReads⟩
  have shows : ∀ {changed left other},
      Reads takeLexeme Rule.body (.rule .parameters) changed (some (left, other)) →
      Shows (shownBy "(") changed := by
    intro changed left other again
    rcases again.of_rule.of_branch with ⟨_, partReads, rfl⟩
    rcases partReads.of_seq with ⟨_, _, _, rfl, openingReads, -⟩
    exact shows_of_punctuation openingReads
  have headReads : Reads takeLexeme Rule.body methodHead _ _ :=
    .seq (.seq typeParametersRead typeReads) nameReads
  have shorter := (headReads.rest_length Rule.mayBeEmpty_sound).2 (by decide)
  have head := (marked_thins only (stopping_signature (by decide)) rfl rfl headReads
    (shows parametersRead)).mono (fun _ there => there) fun _ _ same => same shorter
  have behind := ((parameters_thins only parametersRead).mono (fun _ any => any)
    fun _ again _ => shows again).seq (methodTail_thins only tailReads) fun _ any => any
  have thins := (head.seq behind fun _ there => there).assoc.assoc
  rwa [List.append_assoc, List.append_assoc] at thins

end

end Verbatim.Java
