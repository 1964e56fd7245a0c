import Verbatim.Proofs.Java.Running

/-! The tokens that a grammar can begin with. Where none of them stands the grammar does not fit, so
often one token tells what fits and what does not. -/

namespace Verbatim.Java

/-! ## Tokens that are apart -/

namespace Wanted

/-- No token is both, as far as that can be told. -/
def apart : Wanted → Wanted → Bool
  | keyword word, keyword other => word ≠ other
  | keyword word, identifier | identifier, keyword word => isReserved word
  | keyword word, modifier | modifier, keyword word => !modifiers.contains word
  | keyword word, primitive | primitive, keyword word => !primitiveTypes.contains word
  | identifier, modifier | modifier, identifier | identifier, primitive | primitive, identifier
  | modifier, primitive | primitive, modifier => true
  | punctuation text, punctuation other => text ≠ other
  | punctuation text, plain | plain, punctuation text => isBracket text
  | plain, endOfText | endOfText, plain => true
  | plain, _ | _, plain => false
  | endOfText, endOfText => false
  | endOfText, _ | _, endOfText => true
  | punctuation _, _ | _, punctuation _ => true
  | identifier, identifier | modifier, modifier | primitive, primitive => false

theorem modifier_words : ∀ word ∈ modifiers, isReserved word = true ∧ word ∉ primitiveTypes := by
  decide

theorem primitive_words : ∀ word ∈ primitiveTypes, isReserved word = true := by decide

theorem accepts_eq_none_of_apart {wanted other : Wanted} (separate : wanted.apart other = true)
    {lexeme : Lexeme} (accepted : (wanted.accepts lexeme).isSome = true) :
    other.accepts lexeme = none := by
  have modifierWord := modifier_words lexeme.text
  have primitiveWord := primitive_words lexeme.text
  cases tokenClass : lexeme.tokenClass with
  | word => cases wanted <;> cases other <;> grind [apart, accepts]
  | punctuation => cases wanted <;> cases other <;> grind [apart, accepts]
  | _ => cases wanted <;> cases other <;> simp_all [apart, accepts]

end Wanted

/-! ## First tokens -/

namespace Grammar

variable {Rule : Type}

/-- What the first token can be, if one is taken. Of rules it is said what it can be, and
whether they may take nothing. -/
def firsts (empty : Rule → Bool) (starts : Rule → List Wanted) : Grammar Rule → List Wanted
  | .token wanted => [wanted]
  | .seq first second =>
    first.firsts empty starts ++
      if first.mayTakeNothing empty then second.firsts empty starts else []
  | .choice first second => first.firsts empty starts ++ second.firsts empty starts
  | .ifFits first next other =>
    first.firsts empty starts ++
      (if first.mayTakeNothing empty then next.firsts empty starts else []) ++
      other.firsts empty starts
  | .optional part | .many part | .branch _ part => part.firsts empty starts
  | .ahead _ | .notAhead _ => []
  | .rule name => starts name

end Grammar

def StartRules {Rule : Type} (body : Rule → Grammar Rule) (empty : Rule → Bool)
    (starts : Rule → List Wanted) : Prop :=
  ∀ name, (body name).firsts empty starts ⊆ starts name

theorem Yields.first {Rule : Type} {body : Rule → Grammar Rule} {empty : Rule → Bool}
    {starts : Rule → List Wanted} (sound : EmptyRules body empty)
    (begins : StartRules body empty starts)
    {grammar : Grammar Rule} {taken : List Lexeme} {nodes : List Node}
    (yields : Yields body grammar taken nodes) {lexeme : Lexeme} {rest : List Lexeme}
    (some : taken = lexeme :: rest) :
    ∃ wanted ∈ grammar.firsts empty starts, (wanted.accepts lexeme).isSome = true := by
  -- the token was taken by the first of two parts, or the first one took nothing
  have split : ∀ {first second : Grammar Rule} {front behind : List Lexeme} {frontNodes : List Node}
      {rest : List Lexeme}, Yields body first front frontNodes →
      (∀ {rest}, front = lexeme :: rest →
        ∃ wanted ∈ first.firsts empty starts, (wanted.accepts lexeme).isSome = true) →
      (∀ {rest}, behind = lexeme :: rest →
        ∃ wanted ∈ second.firsts empty starts, (wanted.accepts lexeme).isSome = true) →
      front ++ behind = lexeme :: rest →
      ∃ wanted ∈ (Grammar.seq first second).firsts empty starts,
        (wanted.accepts lexeme).isSome = true := by
    intro first second front behind frontNodes rest firstYields inFirst inSecond equal
    cases front with
    | nil =>
        rcases inSecond equal with ⟨wanted, member, accepted⟩
        refine ⟨wanted, List.mem_append_right _ ?_, accepted⟩
        rwa [firstYields.mayTakeNothing sound rfl, if_pos rfl]
    | cons token left =>
        rw [List.cons_append, List.cons.injEq] at equal
        rcases inFirst (congrArg (· :: left) equal.1) with ⟨wanted, member, accepted⟩
        exact ⟨wanted, List.mem_append_left _ member, accepted⟩
  induction yields generalizing rest with
  | @token wanted _ _ accepted =>
      cases some
      exact ⟨wanted, List.mem_singleton_self _, Option.isSome_of_eq_some accepted⟩
  | seq firstYields _ first second => exact split firstYields first second some
  | choiceFirst _ first =>
      rcases first some with ⟨wanted, member, accepted⟩
      exact ⟨wanted, List.mem_append_left _ member, accepted⟩
  | choiceSecond _ second =>
      rcases second some with ⟨wanted, member, accepted⟩
      exact ⟨wanted, List.mem_append_right _ member, accepted⟩
  | fits firstYields _ first next =>
      rcases split firstYields first next some with ⟨wanted, member, accepted⟩
      exact ⟨wanted, List.mem_append_left _ member, accepted⟩
  | fitsNot _ other =>
      rcases other some with ⟨wanted, member, accepted⟩
      exact ⟨wanted, List.mem_append_right _ member, accepted⟩
  | optional _ part => exact part some
  | optionalNone => cases some
  | manyEnd => cases some
  | manyMore partYields _ part more =>
      have found : ∃ wanted ∈ (Grammar.seq _ (.many _)).firsts empty starts,
          (wanted.accepts lexeme).isSome = true := split partYields part more some
      rcases found with ⟨wanted, member, accepted⟩
      rcases List.mem_append.1 member with first | later
      · exact ⟨wanted, first, accepted⟩
      · rw [List.mem_ite_nil_right] at later
        exact ⟨wanted, later.2, accepted⟩
  | ahead => cases some
  | notAhead => cases some
  | branch _ part => exact part some
  | @rule name _ _ _ part =>
      rcases part some with ⟨wanted, member, accepted⟩
      exact ⟨wanted, begins name member, accepted⟩

/-! ## First tokens of the language -/

namespace Rule

/-- What rules can begin with, found by looking through that many rules. -/
def startsWithin : Nat → Rule → List Wanted
  | 0, _ => []
  | depth + 1, name => (body name).firsts mayBeEmpty (startsWithin depth)

/-- No rule calls more than five others before a token is taken. -/
def starts (name : Rule) : List Wanted := startsWithin 6 name

theorem startRules : StartRules body mayBeEmpty starts := by
  unfold StartRules
  decide

theorem exists_reads (name : Rule) (tokens : List Lexeme) :
    ∃ reading, Reads takeLexeme body (.rule name) tokens reading :=
  ⟨_, runRule_reads mayBeEmpty_sound startsBelow_level (Nat.lt_succ_self _)⟩

end Rule

/-- What the first token of a grammar can be. -/
def Grammar.first (grammar : Grammar Rule) : List Wanted :=
  grammar.firsts Rule.mayBeEmpty Rule.starts

theorem Reads.first {grammar : Grammar Rule} {input rest : List Lexeme} {nodes : List Node}
    (reads : Reads takeLexeme Rule.body grammar input (some (nodes, rest))) :
    (∃ wanted ∈ grammar.first, (takeLexeme wanted input).isSome = true) ∨
      (grammar.mayTakeNothing Rule.mayBeEmpty = true ∧ input = rest) := by
  rcases reads.yields rfl with ⟨taken, rfl, yields⟩
  cases taken with
  | nil => exact .inr ⟨yields.mayTakeNothing Rule.mayBeEmpty_sound rfl, rfl⟩
  | cons lexeme left =>
      rcases yields.first Rule.mayBeEmpty_sound Rule.startRules rfl with ⟨wanted, member, accepted⟩
      refine .inl ⟨wanted, member, ?_⟩
      rwa [List.cons_append, takeLexeme, Option.isSome_map]

theorem Reads.refuses {grammar : Grammar Rule} {input rest : List Lexeme} {nodes : List Node}
    (reads : Reads takeLexeme Rule.body grammar input (some (nodes, rest))) {wanted : Wanted}
    (separate : (grammar.first.all fun first => first.apart wanted) = true)
    (atEnd : grammar.mayTakeNothing Rule.mayBeEmpty = true → takeLexeme wanted rest = none) :
    takeLexeme wanted input = none := by
  rcases reads.first with ⟨first, member, accepted⟩ | ⟨nothing, rfl⟩
  · cases input with
    | nil => rfl
    | cons lexeme left =>
        rw [takeLexeme, Option.isSome_map] at accepted
        rw [takeLexeme_cons_eq_none]
        exact Wanted.accepts_eq_none_of_apart (List.all_eq_true.1 separate first member) accepted
  · exact atEnd nothing

theorem Rule.none_of_refuses {name : Rule} {input : List Lexeme}
    (refuses : ∀ wanted ∈ name.starts, takeLexeme wanted input = none)
    (takes : name.mayBeEmpty = false) : Reads takeLexeme Rule.body (.rule name) input none := by
  rcases exists_reads name input with ⟨_ | ⟨nodes, rest⟩, reads⟩
  · exact reads
  · rcases reads.first with ⟨first, member, accepted⟩ | ⟨nothing, -⟩
    · rw [refuses first member] at accepted
      cases accepted
    · rw [Grammar.mayTakeNothing, takes] at nothing
      cases nothing

theorem Reads.refuses_of_takes {grammar : Grammar Rule} {input rest : List Lexeme}
    {nodes : List Node} (reads : Reads takeLexeme Rule.body grammar input (some (nodes, rest)))
    {wanted : Wanted}
    (separate : (grammar.first.all fun first => first.apart wanted) = true)
    (takes : grammar.mayTakeNothing Rule.mayBeEmpty = false) : takeLexeme wanted input = none :=
  reads.refuses separate fun nothing => absurd (takes.symm.trans nothing) Bool.false_ne_true

theorem Reads.none_of_apart {grammar : Grammar Rule} {name : Rule}
    {input rest : List Lexeme} {nodes : List Node}
    (reads : Reads takeLexeme Rule.body grammar input (some (nodes, rest)))
    (separate :
      (name.starts.all fun wanted => grammar.first.all fun first => first.apart wanted) = true)
    (takes : grammar.mayTakeNothing Rule.mayBeEmpty = false)
    (otherTakes : name.mayBeEmpty = false) :
    Reads takeLexeme Rule.body (.rule name) input none :=
  Rule.none_of_refuses (fun wanted starts =>
    reads.refuses_of_takes (List.all_eq_true.1 separate wanted starts) takes) otherTakes

end Verbatim.Java
