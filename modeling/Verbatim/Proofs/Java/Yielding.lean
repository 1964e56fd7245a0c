import Verbatim.Proofs.Java.Reading

/-! What a grammar does with the tokens it takes. A reading of tokens takes some of them off the
front and makes its nodes from these; what it only looks at leaves no trace. -/

namespace Verbatim.Java

variable {Rule α : Type}

/-- Taking the first of the tokens that a text was cut into. -/
def takeLexeme : Take (List Lexeme) := fun wanted tokens =>
  match tokens with
  | [] => none
  | lexeme :: rest => (wanted.accepts lexeme).map fun kind => (lexeme.node kind, rest)

/-- A grammar yields these nodes from these tokens. What was only looked at and what was tried in
vain is left out. -/
inductive Yields (body : Rule → Grammar Rule) : Grammar Rule → List Lexeme → List Node → Prop
  | token {wanted : Wanted} {lexeme : Lexeme} {kind : Kind} :
      wanted.accepts lexeme = some kind →
      Yields body (.token wanted) [lexeme] [lexeme.node kind]
  | seq {first second : Grammar Rule} {taken more : List Lexeme} {nodes others : List Node} :
      Yields body first taken nodes → Yields body second more others →
      Yields body (.seq first second) (taken ++ more) (nodes ++ others)
  | choiceFirst {first second : Grammar Rule} {taken : List Lexeme} {nodes : List Node} :
      Yields body first taken nodes → Yields body (.choice first second) taken nodes
  | choiceSecond {first second : Grammar Rule} {taken : List Lexeme} {nodes : List Node} :
      Yields body second taken nodes → Yields body (.choice first second) taken nodes
  | fits {first next other : Grammar Rule} {taken more : List Lexeme} {nodes others : List Node} :
      Yields body first taken nodes → Yields body next more others →
      Yields body (.ifFits first next other) (taken ++ more) (nodes ++ others)
  | fitsNot {first next other : Grammar Rule} {taken : List Lexeme} {nodes : List Node} :
      Yields body other taken nodes → Yields body (.ifFits first next other) taken nodes
  | optional {part : Grammar Rule} {taken : List Lexeme} {nodes : List Node} :
      Yields body part taken nodes → Yields body (.optional part) taken nodes
  | optionalNone {part : Grammar Rule} : Yields body (.optional part) [] []
  | manyEnd {part : Grammar Rule} : Yields body (.many part) [] []
  | manyMore {part : Grammar Rule} {taken more : List Lexeme} {nodes others : List Node} :
      Yields body part taken nodes → Yields body (.many part) more others →
      Yields body (.many part) (taken ++ more) (nodes ++ others)
  | ahead {part : Grammar Rule} : Yields body (.ahead part) [] []
  | notAhead {part : Grammar Rule} : Yields body (.notAhead part) [] []
  | branch {kind : Kind} {part : Grammar Rule} {taken : List Lexeme} {nodes : List Node} :
      Yields body part taken nodes →
      Yields body (.branch kind part) taken [Grammar.grow kind nodes]
  | rule {name : Rule} {taken : List Lexeme} {nodes : List Node} :
      Yields body (body name) taken nodes → Yields body (.rule name) taken nodes

theorem Reading.after_eq_some_iff {α : Type} {nodes all : List Node} {reading : Reading α}
    {rest : α} : reading.after nodes = some (all, rest) ↔
      ∃ more, reading = some (more, rest) ∧ all = nodes ++ more := by
  cases reading with
  | none => simp [Reading.after]
  | some pair =>
      rcases pair with ⟨more, left⟩
      simp only [Reading.after, Option.map_some, Option.some.injEq, Prod.mk.injEq]
      constructor
      · rintro ⟨rfl, rfl⟩
        exact ⟨more, ⟨rfl, rfl⟩, rfl⟩
      · rintro ⟨_, ⟨rfl, rfl⟩, rfl⟩
        exact ⟨rfl, rfl⟩

theorem Reads.yields {body : Rule → Grammar Rule} {grammar : Grammar Rule}
    {tokens rest : List Lexeme} {nodes : List Node} {reading : Reading (List Lexeme)}
    (reads : Reads takeLexeme body grammar tokens reading) (fit : reading = some (nodes, rest)) :
    ∃ taken, tokens = taken ++ rest ∧ Yields body grammar taken nodes := by
  induction reads generalizing nodes rest with
  | @token wanted tokens =>
      cases tokens with
      | nil => cases fit
      | cons lexeme left =>
          simp only [takeLexeme, Option.map_map, Option.map_eq_some_iff] at fit
          rcases fit with ⟨kind, accepted, equal⟩
          cases equal
          exact ⟨[lexeme], rfl, .token accepted⟩
  | seq _ _ first second =>
      rcases Reading.after_eq_some_iff.1 fit with ⟨others, secondFit, rfl⟩
      rcases first rfl with ⟨taken, rfl, firstYields⟩
      rcases second secondFit with ⟨more, rfl, secondYields⟩
      exact ⟨taken ++ more, by rw [List.append_assoc], .seq firstYields secondYields⟩
  | seqNone => cases fit
  | choiceFirst _ first =>
      rcases first fit with ⟨taken, equal, firstYields⟩
      exact ⟨taken, equal, .choiceFirst firstYields⟩
  | choiceSecond _ _ _ second =>
      rcases second fit with ⟨taken, equal, secondYields⟩
      exact ⟨taken, equal, .choiceSecond secondYields⟩
  | fits _ _ first next =>
      rcases Reading.after_eq_some_iff.1 fit with ⟨others, nextFit, rfl⟩
      rcases first rfl with ⟨taken, rfl, firstYields⟩
      rcases next nextFit with ⟨more, rfl, nextYields⟩
      exact ⟨taken ++ more, by rw [List.append_assoc], .fits firstYields nextYields⟩
  | fitsNot _ _ _ other =>
      rcases other fit with ⟨taken, equal, otherYields⟩
      exact ⟨taken, equal, .fitsNot otherYields⟩
  | @optional _ _ reading _ part =>
      cases reading with
      | none =>
          cases fit
          exact ⟨[], rfl, .optionalNone⟩
      | some pair =>
          rcases part fit with ⟨taken, equal, partYields⟩
          exact ⟨taken, equal, .optional partYields⟩
  | manyEnd =>
      cases fit
      exact ⟨[], rfl, .manyEnd⟩
  | manyMore _ _ part more =>
      rcases Reading.after_eq_some_iff.1 fit with ⟨others, moreFit, rfl⟩
      rcases part rfl with ⟨taken, rfl, partYields⟩
      rcases more moreFit with ⟨left, rfl, moreYields⟩
      exact ⟨taken ++ left, by rw [List.append_assoc], .manyMore partYields moreYields⟩
  | ahead =>
      split at fit
      · cases fit
        exact ⟨[], rfl, .ahead⟩
      · cases fit
  | notAhead =>
      split at fit
      · cases fit
      · cases fit
        exact ⟨[], rfl, .notAhead⟩
  | branch _ part =>
      rcases Option.map_eq_some_iff.1 fit with ⟨⟨inner, left⟩, partFit, equal⟩
      cases equal
      rcases part partFit with ⟨taken, equal, partYields⟩
      exact ⟨taken, equal, .branch partYields⟩
  | rule _ part =>
      rcases part fit with ⟨taken, equal, partYields⟩
      exact ⟨taken, equal, .rule partYields⟩

/-- Every token that is taken is one that is wanted. -/
theorem Yields.accepted {body : Rule → Grammar Rule} {tokens : Wanted → Bool} {rules : Rule → Bool}
    (closed : ∀ name, rules name = true → (body name).Only tokens rules = true)
    {grammar : Grammar Rule} {taken : List Lexeme} {nodes : List Node}
    (yields : Yields body grammar taken nodes) (only : grammar.Only tokens rules = true) :
    ∀ token ∈ taken, ∃ wanted, tokens wanted = true ∧ (wanted.accepts token).isSome = true := by
  induction yields with
  | @token wanted _ _ accepted =>
      intro token member
      rw [List.mem_singleton.1 member]
      exact ⟨wanted, only, Option.isSome_of_eq_some accepted⟩
  | seq _ _ first second =>
      rw [Grammar.Only, Bool.and_eq_true] at only
      exact List.forall_mem_append.2 ⟨first only.1, second only.2⟩
  | choiceFirst _ first =>
      rw [Grammar.Only, Bool.and_eq_true] at only
      exact first only.1
  | choiceSecond _ second =>
      rw [Grammar.Only, Bool.and_eq_true] at only
      exact second only.2
  | fits _ _ first next =>
      rw [Grammar.Only, Bool.and_eq_true, Bool.and_eq_true] at only
      exact List.forall_mem_append.2 ⟨first only.1.1, next only.1.2⟩
  | fitsNot _ other =>
      rw [Grammar.Only, Bool.and_eq_true] at only
      exact other only.2
  | optional _ part => exact part only
  | optionalNone => exact fun _ member => absurd member List.not_mem_nil
  | manyEnd => exact fun _ member => absurd member List.not_mem_nil
  | manyMore _ _ part more => exact List.forall_mem_append.2 ⟨part only, more only⟩
  | ahead => exact fun _ member => absurd member List.not_mem_nil
  | notAhead => exact fun _ member => absurd member List.not_mem_nil
  | branch _ part => exact part only
  | @rule name _ _ _ part => exact part (closed name only)

/-! What was yielded shows how. -/

namespace Yields

variable {body : Rule → Grammar Rule} {taken : List Lexeme} {nodes : List Node}

theorem of_rule {name : Rule} (yields : Yields body (.rule name) taken nodes) :
    Yields body (body name) taken nodes := by
  cases yields with
  | rule inner => exact inner

theorem of_branch {kind : Kind} {part : Grammar Rule}
    (yields : Yields body (.branch kind part) taken nodes) :
    ∃ inner, Yields body part taken inner ∧ nodes = [Grammar.grow kind inner] := by
  cases yields with
  | branch inner => exact ⟨_, inner, rfl⟩

theorem of_seq {first second : Grammar Rule}
    (yields : Yields body (.seq first second) taken nodes) :
    ∃ front behind firstNodes secondNodes, taken = front ++ behind ∧
      nodes = firstNodes ++ secondNodes ∧ Yields body first front firstNodes ∧
      Yields body second behind secondNodes := by
  cases yields with
  | seq first second => exact ⟨_, _, _, _, rfl, rfl, first, second⟩

theorem of_token {wanted : Wanted} (yields : Yields body (.token wanted) taken nodes) :
    ∃ lexeme kind, taken = [lexeme] ∧ nodes = [lexeme.node kind] ∧
      wanted.accepts lexeme = some kind := by
  cases yields with
  | token accepted => exact ⟨_, _, rfl, rfl, accepted⟩

end Yields

/-! What was read shows how, too. -/

namespace Reads

variable {take : Take α} {body : Rule → Grammar Rule} {input rest : α} {nodes : List Node}

theorem of_rule {name : Rule} {reading : Reading α}
    (reads : Reads take body (.rule name) input reading) :
    Reads take body (body name) input reading := by
  cases reads with
  | rule inner => exact inner

theorem of_seq {first second : Grammar Rule}
    (reads : Reads take body (.seq first second) input (some (nodes, rest))) :
    ∃ firstNodes between secondNodes, nodes = firstNodes ++ secondNodes ∧
      Reads take body first input (some (firstNodes, between)) ∧
      Reads take body second between (some (secondNodes, rest)) := by
  generalize reading : (some (nodes, rest) : Reading α) = outcome at reads
  cases reads with
  | seq firstReads secondReads =>
      rcases Reading.after_eq_some_iff.1 reading.symm with ⟨more, rfl, rfl⟩
      exact ⟨_, _, more, rfl, firstReads, secondReads⟩
  | seqNone => cases reading

theorem of_seq_none {first second : Grammar Rule}
    (reads : Reads take body (.seq first second) input none) :
    Reads take body first input none ∨ ∃ firstNodes between,
      Reads take body first input (some (firstNodes, between)) ∧
      Reads take body second between none := by
  generalize reading : (none : Reading α) = outcome at reads
  cases reads with
  | seqNone firstNone => exact .inl firstNone
  | @seq _ _ _ _ _ found firstReads secondReads =>
      cases found with
      | none => exact .inr ⟨_, _, firstReads, secondReads⟩
      | some pair => cases reading

theorem not_many_none {part : Grammar Rule} : ¬ Reads take body (.many part) input none := by
  intro reads
  generalize repetition : Grammar.many part = grammar at reads
  generalize missing : (none : Reading α) = outcome at reads
  induction reads with
  | manyEnd => cases missing
  | manyMore _ _ _ more => exact more repetition (Option.map_eq_none_iff.1 missing.symm).symm
  | _ => cases repetition

theorem none_behind_many {part : Grammar Rule}
    (reads : Reads take body (.many part) input (some (nodes, rest))) :
    Reads take body part rest none := by
  generalize repetition : Grammar.many part = grammar at reads
  generalize reading : (some (nodes, rest) : Reading α) = outcome at reads
  induction reads generalizing nodes with
  | manyEnd partNone =>
      cases repetition
      cases reading
      exact partNone
  | manyMore _ _ _ more =>
      rcases Reading.after_eq_some_iff.1 reading.symm with ⟨others, rfl, -⟩
      exact more repetition rfl
  | _ => cases repetition

theorem not_optional_none {part : Grammar Rule} :
    ¬ Reads take body (.optional part) input none := by
  intro reads
  generalize missing : (none : Reading α) = outcome at reads
  cases reads with
  | @optional _ _ found partReads => cases found <;> cases missing

theorem assoc {first second third : Grammar Rule}
    (reads : Reads take body (.seq (.seq first second) third) input (some (nodes, rest))) :
    Reads take body (.seq first (.seq second third)) input (some (nodes, rest)) := by
  rcases reads.of_seq with ⟨_, _, thirdNodes, rfl, bothReads, thirdReads⟩
  rcases bothReads.of_seq with ⟨firstNodes, _, secondNodes, rfl, firstReads, secondReads⟩
  rw [List.append_assoc]
  exact .seq firstReads (.seq secondReads thirdReads)

theorem seq_none {first second : Grammar Rule} {between : α} {firstNodes : List Node}
    (firstReads : Reads take body first input (some (firstNodes, between)))
    (secondNone : Reads take body second between none) :
    Reads take body (.seq first second) input none :=
  .seq firstReads secondNone

theorem of_branch {kind : Kind} {part : Grammar Rule}
    (reads : Reads take body (.branch kind part) input (some (nodes, rest))) :
    ∃ inner, Reads take body part input (some (inner, rest)) ∧
      nodes = [Grammar.grow kind inner] := by
  generalize reading : (some (nodes, rest) : Reading α) = outcome at reads
  cases reads with
  | branch partReads =>
      rcases Option.map_eq_some_iff.1 reading.symm with ⟨⟨inner, left⟩, rfl, pair⟩
      cases pair
      exact ⟨inner, partReads, rfl⟩

theorem of_branch_none {kind : Kind} {part : Grammar Rule}
    (reads : Reads take body (.branch kind part) input none) : Reads take body part input none := by
  generalize reading : (none : Reading α) = outcome at reads
  cases reads with
  | @branch _ _ _ found partReads =>
      cases found with
      | none => exact partReads
      | some pair => cases reading

theorem of_choice {first second : Grammar Rule} {reading : Reading α}
    (reads : Reads take body (.choice first second) input reading) :
    (reading.isSome ∧ Reads take body first input reading) ∨
      (Reads take body first input none ∧ Reads take body second input reading) := by
  cases reads with
  | choiceFirst firstReads => exact .inl ⟨rfl, firstReads⟩
  | choiceSecond firstNone secondReads => exact .inr ⟨firstNone, secondReads⟩

theorem of_optional {part : Grammar Rule}
    (reads : Reads take body (.optional part) input (some (nodes, rest))) :
    Reads take body part input (some (nodes, rest)) ∨
      (Reads take body part input none ∧ nodes = [] ∧ rest = input) := by
  generalize reading : (some (nodes, rest) : Reading α) = outcome at reads
  cases reads with
  | @optional _ _ found partReads =>
      cases found with
      | none =>
          cases reading
          exact .inr ⟨partReads, rfl, rfl⟩
      | some pair =>
          cases reading
          exact .inl partReads

theorem of_many {part : Grammar Rule}
    (reads : Reads take body (.many part) input (some (nodes, rest))) :
    (Reads take body part input none ∧ nodes = [] ∧ rest = input) ∨
      ∃ firstNodes between others, nodes = firstNodes ++ others ∧
        Reads take body part input (some (firstNodes, between)) ∧
        Reads take body (.many part) between (some (others, rest)) := by
  generalize reading : (some (nodes, rest) : Reading α) = outcome at reads
  cases reads with
  | manyEnd partNone =>
      cases reading
      exact .inl ⟨partNone, rfl, rfl⟩
  | manyMore partReads moreReads =>
      rcases Reading.after_eq_some_iff.1 reading.symm with ⟨others, rfl, rfl⟩
      exact .inr ⟨_, _, others, rfl, partReads, moreReads⟩

end Reads

@[simp] theorem takeLexeme_cons_eq_none {wanted : Wanted} {lexeme : Lexeme} {rest : List Lexeme} :
    takeLexeme wanted (lexeme :: rest) = none ↔ wanted.accepts lexeme = none := by
  rw [takeLexeme, Option.map_eq_none_iff]

theorem Reads.of_token {body : Rule → Grammar Rule} {wanted : Wanted} {input rest : List Lexeme}
    {nodes : List Node} (reads : Reads takeLexeme body (.token wanted) input (some (nodes, rest))) :
    ∃ lexeme kind, input = lexeme :: rest ∧ wanted.accepts lexeme = some kind ∧
      nodes = [lexeme.node kind] := by
  generalize reading : (some (nodes, rest) : Reading (List Lexeme)) = outcome at reads
  cases reads with
  | token =>
      cases input with
      | nil => cases reading
      | cons lexeme left =>
          simp only [takeLexeme, Option.map_map] at reading
          rcases Option.map_eq_some_iff.1 reading.symm with ⟨kind, accepted, pair⟩
          cases pair
          exact ⟨lexeme, kind, rfl, accepted, rfl⟩

theorem Reads.token_of_accepts {body : Rule → Grammar Rule} {wanted : Wanted} {lexeme : Lexeme}
    {kind : Kind} (accepted : wanted.accepts lexeme = some kind) (rest : List Lexeme) :
    Reads takeLexeme body (.token wanted) (lexeme :: rest) (some ([lexeme.node kind], rest)) := by
  have reads : Reads takeLexeme body (.token wanted) (lexeme :: rest) _ := .token
  rw [takeLexeme, accepted] at reads
  exact reads

theorem Reads.token_of_none {body : Rule → Grammar Rule} {wanted : Wanted} {input : List Lexeme}
    (missing : takeLexeme wanted input = none) :
    Reads takeLexeme body (.token wanted) input none := by
  have reads : Reads takeLexeme body (.token wanted) input _ := .token
  rw [missing] at reads
  exact reads

theorem Reads.of_token_none {body : Rule → Grammar Rule} {wanted : Wanted} {input : List Lexeme}
    (reads : Reads takeLexeme body (.token wanted) input none) :
    takeLexeme wanted input = none := by
  generalize reading : (none : Reading (List Lexeme)) = outcome at reads
  cases reads with
  | token => exact Option.map_eq_none_iff.1 reading.symm

end Verbatim.Java
