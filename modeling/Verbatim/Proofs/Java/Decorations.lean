import Verbatim.Proofs.Java.Thinning

/-! Annotations in front of declarations. A declaration is read the same without some of them, since
what comes behind its modifiers is no modifier and no part of an annotation. -/

namespace Verbatim.Java

open Node (withoutAll)
open Grammar (punctuation identifier keyword)

/-- Rules that read no annotations. -/
def Rule.isPlain : Rule → Bool
  | compilationUnit | topLevel | package | classDecl | classBody | enumBody | enumValues | enumValue
  | member | methodDecl | fieldDecl | modifiers | annotationUse | parameters | parameterList
  | parameter => false
  | _ => true

def Grammar.IsPlain (grammar : Grammar Rule) : Bool :=
  grammar.Branches (fun kind _ => kind ≠ .annotationUse) Rule.isPlain

theorem Rule.isPlain_body (name : Rule) (plain : name.isPlain = true) :
    (body name).IsPlain = true := by
  revert name
  decide

def OnlyAnnotations (gone : Node → Bool) : Prop :=
  ∀ node, gone node = true → node.kind = .annotationUse

def EndsType (input : List Lexeme) : Prop :=
  Refuses "." input ∧ Refuses "<" input ∧ Refuses "[" input

theorem endsType_of_first {grammar : Grammar Rule} {input rest : List Lexeme} {nodes : List Node}
    (reads : Reads takeLexeme Rule.body grammar input (some (nodes, rest)))
    (separate : ([".", "<", "["].all fun text => grammar.first.all fun first =>
      first.apart (.punctuation text)) = true)
    (takes : grammar.mayTakeNothing Rule.mayBeEmpty = false) : EndsType input := by
  simp only [List.all_cons, List.all_nil, Bool.and_true, Bool.and_eq_true] at separate
  exact ⟨reads.refuses_of_takes separate.1 takes, reads.refuses_of_takes separate.2.1 takes,
    reads.refuses_of_takes separate.2.2 takes⟩

section

variable {gone : Node → Bool} (only : OnlyAnnotations gone) {grammar : Grammar Rule}
  {input between rest : List Lexeme} {nodes others : List Node}

include only

theorem OnlyAnnotations.stays {node : Node} (other : node.kind ≠ .annotationUse) :
    gone node = false :=
  Bool.eq_false_iff.2 fun isGone => other (only node isGone)

theorem OnlyAnnotations.grown {kind : Kind} (other : kind ≠ .annotationUse) (children : List Node) :
    gone (Grammar.grow kind children) = false :=
  only.stays other

theorem OnlyAnnotations.stay (plain : grammar.IsPlain = true)
    (reads : Reads takeLexeme Rule.body grammar input (some (nodes, rest))) :
    ∀ node ∈ nodes, node.Everywhere fun part => gone part = false := by
  rcases reads.yields rfl with ⟨taken, rfl, yields⟩
  refine yields.everywhere Rule.isPlain_body (fun lexeme kind isToken => only.stays ?_) ?_ plain
  · rintro rfl
    cases isToken
  · intro kind part taken nodes allowed _
    exact only.stays (of_decide_eq_true allowed)

/-! ## Types -/

theorem names_thins
    (reads : Reads takeLexeme Rule.body (.many (punctuation "." >> identifier)) input
      (some (nodes, rest))) :
    Thins gone (Refuses ".") Anything (.many (punctuation "." >> identifier)) input nodes rest := by
  refine (Thins.many (fun _ _ => True) rfl (Nat.le_refl _) (fun _ elementReads => .inl ?_)
    reads).mono (fun other refuses => ⟨.seqNone (.token_of_none refuses), trivial⟩)
    fun _ _ _ => trivial
  rcases elementReads.of_seq with ⟨_, _, _, rfl, dotReads, nameReads⟩
  exact (Thins.seq (.token (only.stay rfl dotReads) dotReads)
    (.token (only.stay rfl nameReads) nameReads) fun _ _ => trivial).mono (fun _ _ => trivial)
    fun _ _ _ => trivial

theorem qualifiedName_thins
    (reads : Reads takeLexeme Rule.body (.rule .qualifiedName) input (some (nodes, rest))) :
    Thins gone (Refuses ".") (SameHead input) (.rule .qualifiedName) input nodes rest := by
  rcases reads.of_rule.of_branch with ⟨inner, partReads, rfl⟩
  rcases partReads.of_seq with ⟨_, _, _, rfl, firstReads, moreReads⟩
  exact .rule (.branch (.seq (.token (only.stay rfl firstReads) firstReads)
    (names_thins only moreReads) fun _ any => any) (only.grown (by decide) _))

theorem dimensions_thins
    (reads : Reads takeLexeme Rule.body (.rule .dimensions) input (some (nodes, rest))) :
    Thins gone EndsType (fun changed => Refuses "." changed ∧ Refuses "<" changed)
      (.rule .dimensions) input nodes rest := by
  refine .rule ((Thins.many (fun _ changed => Refuses "." changed ∧ Refuses "<" changed) rfl
    (Nat.le_refl _) (fun _ elementReads => .inl ?_) reads.of_rule).mono
    (fun other ends => ⟨.seqNone (.token_of_none ends.2.2), ends.1, ends.2.1⟩)
    fun _ _ refuses => refuses)
  rcases elementReads.of_seq with ⟨_, _, _, rfl, openingReads, closingReads⟩
  refine (Thins.seq (.token (only.stay rfl openingReads) openingReads)
    (.token (only.stay rfl closingReads) closingReads) fun _ _ => trivial).mono (fun _ _ => trivial)
    fun _ again _ => ⟨?_, ?_⟩
  · exact again.refuses_of_takes (by decide) rfl
  · exact again.refuses_of_takes (by decide) rfl

theorem brackets_thins {name : Rule} {kind : Kind} {opening closing : String} {part : Grammar Rule}
    (is : Rule.body name = .branch kind (Grammar.enclosed opening closing part))
    (plain : name.isPlain = true) (noDot : opening ≠ ".")
    (fits : ∀ {input rest nodes}, Reads takeLexeme Rule.body
      (.rule name) input (some (nodes, rest)) →
      ∃ region, input = region ++ rest ∧ Fits Anything (.rule name) region nodes)
    (reads : Reads takeLexeme Rule.body (.optional (.rule name)) input (some (nodes, rest))) :
    Thins gone (fun other => Refuses "." other ∧ Refuses opening other) (Refuses ".")
      (.optional (.rule name)) input nodes rest := by
  refine .optional reads (fun someReads => ?_) fun _ _ other refuses => ⟨.rule ?_, refuses.1⟩
  · rcases fits someReads with ⟨region, equal, regionFits⟩
    refine (Thins.of_fits
      (only.stay (show Grammar.IsPlain (.rule name) = true from plain) someReads)
      regionFits equal).mono (fun _ _ => trivial) fun _ again _ => ?_
    have bodyReads := again.of_rule
    rw [is] at bodyReads
    rcases bodyReads.of_branch with ⟨inner, enclosedReads, rfl⟩
    rcases enclosedReads.of_seq with ⟨_, _, _, rfl, openingReads, -⟩
    rcases openingReads.of_token with ⟨token, _, rfl, opens, -⟩
    rw [Refuses, takeLexeme_cons_eq_none, accepts_of_shape (shape_of_accepts opens)]
    exact if_neg noDot
  · rw [is]
    exact .branch (.seqNone (.token_of_none refuses.2))

theorem typeBase_thins
    (reads : Reads takeLexeme Rule.body (.rule .typeBase) input (some (nodes, rest))) :
    Thins gone (fun other => Refuses "." other ∧ Refuses "<" other) (SameHead input)
      (.rule .typeBase) input nodes rest := by
  refine .rule ?_
  rcases reads.of_rule.of_choice with ⟨-, primitiveReads⟩ | ⟨-, nameReads⟩
  · exact .choice_first ((Thins.token (only.stay rfl primitiveReads) primitiveReads).mono
      (fun _ _ => trivial) fun _ _ same => same)
  · refine .choice_second ?_ fun again => .token_of_none (again.refuses_of_takes (by decide)
      rfl)
    rcases nameReads.of_seq with ⟨_, _, _, rfl, qualifiedReads, argumentsReads⟩
    exact .seq (qualifiedName_thins only qualifiedReads) (brackets_thins only rfl rfl (by decide)
      (fun reads => (typeArguments_fits reads).imp fun _ fits => ⟨fits.1, fits.2.2⟩) argumentsReads)
        fun _ dot => dot

theorem typeRef_thins
    (reads : Reads takeLexeme Rule.body (.rule .typeRef) input (some (nodes, rest))) :
    Thins gone EndsType (SameHead input) (.rule .typeRef) input nodes rest := by
  rcases reads.of_rule.of_branch with ⟨inner, partReads, rfl⟩
  rcases partReads.of_seq with ⟨_, _, _, rfl, baseReads, dimensionsReads⟩
  exact .rule (.branch (.seq (typeBase_thins only baseReads)
    (dimensions_thins only dimensionsReads) fun _ refuses => refuses) (only.grown (by decide) _))

/-! ## Annotations -/

def EndsAnnotation (input : List Lexeme) : Prop := Refuses "." input ∧ Refuses "(" input

theorem annotation_thins
    (reads : Reads takeLexeme Rule.body (.rule .annotationUse) input (some (nodes, rest))) :
    Thins gone EndsAnnotation (SameHead input) (.rule .annotationUse) input nodes rest ∨
      withoutAll gone nodes = [] := by
  rcases reads.of_rule.of_branch with ⟨inner, partReads, rfl⟩
  cases isGone : gone (Grammar.grow .annotationUse inner) with
  | true =>
      refine .inr ?_
      rw [withoutAll, if_pos isGone, withoutAll]
  | false =>
      refine .inl (.rule (.branch ?_ isGone))
      rcases partReads.of_seq with ⟨_, _, _, rfl, signReads, behind⟩
      rcases behind.of_seq with ⟨_, _, _, rfl, nameReads, argumentsReads⟩
      exact .seq (.token (only.stay rfl signReads) signReads) (.seq (qualifiedName_thins only
        nameReads) (brackets_thins only rfl rfl (by decide) (fun reads =>
          (parenGroup_fits reads).imp fun _ fits => ⟨fits.1, fits.2.2⟩) argumentsReads)
        fun _ dot => dot) fun _ _ => trivial

end

/-! ## Modifiers -/

section

variable {gone : Node → Bool} {core : Grammar Rule} {input between rest : List Lexeme}
  {nodes others : List Node}

/-- No value of an enumeration can be read here. -/
def NoValue (input : List Lexeme) : Prop :=
  Reads takeLexeme Rule.body (.rule .enumValue) input none

/-- Neither a modifier nor a part of an annotation stands here. -/
structure Undecorated (input : List Lexeme) : Prop where
  ends : EndsAnnotation input
  unannotated : Reads takeLexeme Rule.body (.rule .annotationUse) input none
  noModifier : takeLexeme .modifier input = none

theorem Undecorated.noElement (undecorated : Undecorated input) :
    Reads takeLexeme Rule.body (.choice (.rule .annotationUse) (.token .modifier)) input none :=
  .choiceSecond undecorated.unannotated (.token_of_none undecorated.noModifier)

theorem noValue_iff_of_annotated
    (reads : Reads takeLexeme Rule.body (.rule .annotationUse) input (some (nodes, between))) :
    NoValue input ↔ NoValue between := by
  constructor
  · intro noValue
    rcases noValue.of_rule.of_branch_none.of_seq_none with never | ⟨_, _, allReads, behind⟩
    · exact absurd never Reads.not_many_none
    · rcases allReads.of_many with ⟨unannotated, -⟩ | ⟨_, _, _, rfl, firstReads, moreReads⟩
      · cases unannotated.unique reads
      · cases firstReads.unique reads
        exact .rule (.branch (.seq_none moreReads behind))
  · intro noValue
    rcases noValue.of_rule.of_branch_none.of_seq_none with never | ⟨_, _, allReads, behind⟩
    · exact absurd never Reads.not_many_none
    · exact .rule (.branch (.seq_none (.manyMore reads allReads) behind))

theorem noValue_iff_of_unannotated
    (unannotated : Reads takeLexeme Rule.body (.rule .annotationUse) input none) :
    NoValue input ↔ takeLexeme .identifier input = none := by
  constructor
  · intro noValue
    rcases noValue.of_rule.of_branch_none.of_seq_none with never | ⟨_, _, allReads, behind⟩
    · exact absurd never Reads.not_many_none
    · cases allReads.unique (.manyEnd unannotated)
      rcases behind.of_seq_none with noName | ⟨_, _, -, more⟩
      · exact noName.of_token_none
      · rcases more.of_seq_none with never | ⟨_, _, -, never⟩
        · exact absurd never Reads.not_optional_none
        · exact absurd never Reads.not_optional_none
  · intro noName
    exact .rule (.branch (.seq_none (.manyEnd unannotated) (.seqNone (.token_of_none noName))))

theorem unannotated_of_refuses (refuses : Refuses "@" input) :
    Reads takeLexeme Rule.body (.rule .annotationUse) input none :=
  .rule (.branch (.seqNone (.token_of_none refuses)))

theorem modifiers_thins (only : OnlyAnnotations gone)
    (reads : Reads takeLexeme Rule.body (.rule .modifiers) input (some (nodes, rest))) :
    Thins gone (fun other => Undecorated other ∧ (NoValue rest → NoValue other))
      (fun changed => EndsAnnotation changed ∧ (NoValue input → NoValue changed))
      (.rule .modifiers) input nodes rest := by
  refine .rule ((Thins.many (fun place changed => EndsAnnotation changed ∧
    (NoValue place → NoValue changed)) rfl (Nat.le_refl _) (fun _ elementReads => ?_)
    reads.of_rule).mono (fun other isNext => ⟨isNext.1.noElement, isNext.1.ends, isNext.2⟩)
    fun _ _ same => same)
  rcases elementReads.of_choice with ⟨-, annotationReads⟩ | ⟨unannotated, modifierReads⟩
  · have equivalent := noValue_iff_of_annotated annotationReads
    rcases annotation_thins only annotationReads with thins | missing
    · refine .inl (.choice_first (thins.mono (fun _ isNext => isNext.1) fun isNext again _ =>
        ⟨⟨again.refuses_of_takes (by decide) rfl, again.refuses_of_takes (by decide) rfl⟩, ?_⟩))
      exact fun noValue => (noValue_iff_of_annotated again).2 (isNext.2 (equivalent.1 noValue))
    · exact .inr ⟨missing, fun other isNext => ⟨isNext.1, fun noValue =>
        isNext.2 (equivalent.1 noValue)⟩⟩
  · have apart : ∀ {changed other left},
        Reads takeLexeme Rule.body (.token .modifier) changed (some (left, other)) →
        Reads takeLexeme Rule.body (.rule .annotationUse) changed none :=
      fun again => unannotated_of_refuses (again.refuses_of_takes (by decide) rfl)
    refine .inl (.choice_second ((Thins.token (only.stay rfl modifierReads) modifierReads).mono
      (fun _ _ => trivial) fun _ again _ =>
        ⟨⟨again.refuses_of_takes (by decide) rfl, again.refuses_of_takes (by decide) rfl⟩, ?_⟩)
          apart)
    exact fun _ => (noValue_iff_of_unannotated (apart again)).2
      (again.refuses_of_takes (by decide) rfl)

theorem declared_thins (only : OnlyAnnotations gone)
    (undecorated : ∀ {input nodes rest},
      Reads takeLexeme Rule.body core input (some (nodes, rest)) → Undecorated input)
    {next : List Lexeme → Prop}
    (reads : Reads takeLexeme Rule.body (.rule .modifiers) input (some (nodes, between)))
    (coreReads : Reads takeLexeme Rule.body core between (some (others, rest)))
    (thins : Thins gone next (SameHead between) core between others rest) :
    Thins gone next (fun changed => NoValue input → NoValue changed) (.seq (.rule .modifiers) core)
      input (nodes ++ others) rest := by
  have here := undecorated coreReads
  have behind : Thins gone next
      (fun changed => Undecorated changed ∧ (NoValue between → NoValue changed)) core between others
      rest := by
    refine thins.mono (fun _ isNext => isNext) fun _ again same => ⟨undecorated again, ?_⟩
    rw [noValue_iff_of_unannotated here.unannotated,
      noValue_iff_of_unannotated (undecorated again).unannotated, same.takeLexeme_eq_none_iff]
    exact id
  exact ((modifiers_thins only reads).mono (fun _ isNext => isNext) fun _ _ same => same.2).seq
    behind fun _ isNext => isNext

end

end Verbatim.Java
