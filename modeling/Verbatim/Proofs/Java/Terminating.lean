import Mathlib.Logic.Relation
import Verbatim.Proofs.Java.Characters
import Verbatim.Proofs.Java.Elements
import Verbatim.Proofs.Java.TokenPatterns

/-! Reading ends. While a rule is tried it calls others, itself only further on in the text; and
no part is repeated without taking a byte. So the calls are well-founded, and every text reads
in one way. -/

namespace Verbatim.Java

/-! ## Calls -/

section

variable {Rule α : Type}

/-- All parts that are repeated. -/
def Grammar.repeated : Grammar Rule → List (Grammar Rule)
  | .token _ | .rule _ => []
  | .seq first second | .choice first second => first.repeated ++ second.repeated
  | .ifFits first next other => first.repeated ++ next.repeated ++ other.repeated
  | .many part => part :: part.repeated
  | .optional part | .ahead part | .notAhead part | .branch _ part => part.repeated

/-- While the grammar is tried at one place, the rule is called at the other. A part is tried
only if what was tried in front of it came out so that it matters. -/
inductive Tries (take : Take α) (body : Rule → Grammar Rule) :
    Grammar Rule → α → Rule → α → Prop
  | rule {name : Rule} {input : α} : Tries take body (.rule name) input name input
  | seqFirst {first second : Grammar Rule} {input left : α} {name : Rule} :
      Tries take body first input name left → Tries take body (.seq first second) input name left
  | seqSecond {first second : Grammar Rule} {input rest left : α}
      {nodes : List Node} {name : Rule} :
      Reads take body first input (some (nodes, rest)) → Tries take body second rest name left →
      Tries take body (.seq first second) input name left
  | choiceFirst {first second : Grammar Rule} {input left : α} {name : Rule} :
      Tries take body first input name left → Tries take body (.choice first second) input name left
  | choiceSecond {first second : Grammar Rule} {input left : α} {name : Rule} :
      Reads take body first input none → Tries take body second input name left →
      Tries take body (.choice first second) input name left
  | ifFits {first next other : Grammar Rule} {input left : α} {name : Rule} :
      Tries take body first input name left →
      Tries take body (.ifFits first next other) input name left
  | fits {first next other : Grammar Rule} {input rest left : α} {nodes : List Node} {name : Rule} :
      Reads take body first input (some (nodes, rest)) → Tries take body next rest name left →
      Tries take body (.ifFits first next other) input name left
  | fitsNot {first next other : Grammar Rule} {input left : α} {name : Rule} :
      Reads take body first input none → Tries take body other input name left →
      Tries take body (.ifFits first next other) input name left
  | optional {part : Grammar Rule} {input left : α} {name : Rule} :
      Tries take body part input name left → Tries take body (.optional part) input name left
  | many {part : Grammar Rule} {input left : α} {name : Rule} :
      Tries take body part input name left → Tries take body (.many part) input name left
  | manyMore {part : Grammar Rule} {input rest left : α} {nodes : List Node} {name : Rule} :
      Reads take body part input (some (nodes, rest)) →
      Tries take body (.many part) rest name left →
      Tries take body (.many part) input name left
  | ahead {part : Grammar Rule} {input left : α} {name : Rule} :
      Tries take body part input name left → Tries take body (.ahead part) input name left
  | notAhead {part : Grammar Rule} {input left : α} {name : Rule} :
      Tries take body part input name left → Tries take body (.notAhead part) input name left
  | branch {kind : Kind} {part : Grammar Rule} {input left : α} {name : Rule} :
      Tries take body part input name left → Tries take body (.branch kind part) input name left

/-- While the one rule is tried at its place, the other is called at its. -/
def Calls (take : Take α) (body : Rule → Grammar Rule) (here there : Rule × α) : Prop :=
  Tries take body (body here.1) here.2 there.1 there.2

variable {take : Take α} {body : Rule → Grammar Rule} {size : α → Nat} {tokens : Wanted → Bool}
  {rules empty : Rule → Bool} {level : Rule → Nat} {levels : Nat}

theorem Tries.only {grammar : Grammar Rule} {input left : α} {name : Rule}
    (tries : Tries take body grammar input name left) {tokens : Wanted → Bool}
    (only : grammar.Only tokens rules = true) : rules name = true := by
  induction tries with
  | rule => exact only
  | seqFirst _ first | choiceFirst _ first =>
      rw [Grammar.Only, Bool.and_eq_true] at only
      exact first only.1
  | seqSecond _ _ second | choiceSecond _ _ second =>
      rw [Grammar.Only, Bool.and_eq_true] at only
      exact second only.2
  | ifFits _ first =>
      rw [Grammar.Only, Bool.and_eq_true, Bool.and_eq_true] at only
      exact first only.1.1
  | fits _ _ next =>
      rw [Grammar.Only, Bool.and_eq_true, Bool.and_eq_true] at only
      exact next only.1.2
  | fitsNot _ _ other =>
      rw [Grammar.Only, Bool.and_eq_true] at only
      exact other only.2
  | optional _ part | many _ part | ahead _ part | notAhead _ part | branch _ part =>
      exact part only
  | manyMore _ _ more => exact more only

/-- A call is made with less left, or on a lower level. -/
theorem Tries.descends (shrinks : Shrinks take body size tokens rules empty)
    {grammar : Grammar Rule}
    {input left : α} {name : Rule} (tries : Tries take body grammar input name left)
    (only : grammar.Only tokens rules = true) {limit bound : Nat}
    (starts : grammar.startsBelow empty level levels limit = true)
    (enough : size input * levels + limit ≤ bound) : size left * levels + level name < bound := by
  induction tries generalizing limit with
  | rule =>
      rw [Grammar.startsBelow, decide_eq_true_eq] at starts
      omega
  | seqFirst _ first | choiceFirst _ first =>
      rw [Grammar.Only, Bool.and_eq_true] at only
      rw [Grammar.startsBelow, Bool.and_eq_true] at starts
      exact first only.1 starts.1 enough
  | seqSecond firstReads _ second =>
      rw [Grammar.Only, Bool.and_eq_true] at only
      rw [Grammar.startsBelow, Bool.and_eq_true] at starts
      exact second only.2 starts.2 (limit_behind (firstReads.size_le shrinks only.1 rfl) enough)
  | choiceSecond _ _ second =>
      rw [Grammar.Only, Bool.and_eq_true] at only
      rw [Grammar.startsBelow, Bool.and_eq_true] at starts
      exact second only.2 starts.2 enough
  | ifFits _ first =>
      rw [Grammar.Only, Bool.and_eq_true, Bool.and_eq_true] at only
      rw [Grammar.startsBelow, Bool.and_eq_true, Bool.and_eq_true] at starts
      exact first only.1.1 starts.1.1 enough
  | fits firstReads _ next =>
      rw [Grammar.Only, Bool.and_eq_true, Bool.and_eq_true] at only
      rw [Grammar.startsBelow, Bool.and_eq_true, Bool.and_eq_true] at starts
      exact next only.1.2 starts.1.2 (limit_behind (firstReads.size_le shrinks only.1.1 rfl) enough)
  | fitsNot _ _ other =>
      rw [Grammar.Only, Bool.and_eq_true] at only
      rw [Grammar.startsBelow, Bool.and_eq_true] at starts
      exact other only.2 starts.2 enough
  | many _ part =>
      rw [Grammar.startsBelow, Bool.and_eq_true] at starts
      exact part only starts.1 enough
  | manyMore partReads _ more =>
      have product := Nat.mul_le_mul_right levels (partReads.size_le shrinks only rfl).1
      exact more only starts (by omega)
  | optional _ part | ahead _ part | notAhead _ part | branch _ part =>
      exact part only starts enough

end

/-! ## The rules of the language -/

namespace Rule

def inFile (name : Rule) : Bool := name ≠ compilationUnit

theorem only_alternatives (name : Rule) (inside : name.inFile = true) :
    (alternatives name).Only (fun wanted => wanted ≠ .endOfText) inFile = true := by
  revert inside
  cases name <;> decide

theorem calls_inFile (name : Rule) : (alternatives name).Only (fun _ => true) inFile = true := by
  cases name <;> decide

theorem repeated_takes (name : Rule) : (alternatives name).repeated.all (fun part =>
    part.Only (fun wanted => wanted ≠ .endOfText) inFile && !part.mayTakeNothing mayBeEmpty) =
      true := by
  cases name <;> decide

end Rule

theorem exists_cutInto (cs : List Char) : ∃ tokens, CutInto cs tokens := by
  have cut := lexemes_cutInto (String.ofList cs)
  rw [String.toList_ofList] at cut
  exact ⟨_, cut⟩

theorem byteCount_of_takeCharacters {wanted : Wanted} {cs rest : List Char} {node : Node}
    (inside : wanted ≠ .endOfText) (taken : takeCharacters wanted cs = some (node, rest)) :
    Text.byteCount rest < Text.byteCount cs := by
  rcases exists_cutInto cs with ⟨tokens, cut⟩
  cases cut with
  | @token _ text left lexeme others leading found spelling _ =>
      rw [takeCharacters_of_cutToken leading found spelling] at taken
      rcases Option.map_eq_some_iff.1 taken with ⟨kind, -, pair⟩
      cases pair
      rcases cutToken_append found with ⟨equal, some⟩
      have positive : Text.byteCount text ≠ 0 := fun nothing =>
        some (Text.byteCount_eq_zero_iff.1 nothing)
      rw [← cutTrivia_append cs, equal, Text.byteCount_append, Text.byteCount_append]
      omega
  | last _ missing =>
      rw [takeCharacters_of_cutToken_none missing inside] at taken
      cases taken

theorem shrinks_takeCharacters : Shrinks takeCharacters Rule.alternatives Text.byteCount
    (fun wanted => wanted ≠ .endOfText) Rule.inFile Rule.mayBeEmpty where
  take := fun inside taken => byteCount_of_takeCharacters (of_decide_eq_true inside) taken
  only := Rule.only_alternatives
  empty := Rule.mayBeEmpty_alternatives

/-! ## No rule calls itself where it stands -/

def callMeasure (call : Rule × List Char) : Nat :=
  Text.byteCount call.2 * Rule.levels + call.1.level

theorem calls_descends {here there : Rule × List Char} (inside : here.1.inFile = true)
    (calls : Calls takeCharacters Rule.alternatives here there) :
    callMeasure there < callMeasure here :=
  calls.descends shrinks_takeCharacters (Rule.only_alternatives here.1 inside)
    (Rule.startsBelow_alternatives here.1) (Nat.le_refl _)

theorem inFile_of_calls {here there : Rule × List Char}
    (calls : Calls takeCharacters Rule.alternatives here there) : there.1.inFile = true :=
  calls.only (Rule.calls_inFile here.1)

theorem wellFounded_calls :
    WellFounded fun there here => Calls takeCharacters Rule.alternatives here there := by
  have inside (size : Nat) : ∀ call : Rule × List Char, call.1.inFile = true →
      callMeasure call = size → Acc (fun there here =>
        Calls takeCharacters Rule.alternatives here there) call := by
    induction size using Nat.strongRecOn with
    | ind size induction =>
        intro call inFile equal
        refine .intro call fun there calls => ?_
        exact induction _ (equal ▸ calls_descends inFile calls) there (inFile_of_calls calls) rfl
  exact ⟨fun call => .intro call fun there calls => inside _ there (inFile_of_calls calls) rfl⟩

theorem inFile_of_transGen {here there : Rule × List Char}
    (calls : Relation.TransGen (Calls takeCharacters Rule.alternatives) here there) :
    there.1.inFile = true := by
  cases calls with
  | single last => exact inFile_of_calls last
  | tail _ last => exact inFile_of_calls last

theorem byteCount_of_calls {name : Rule} {cs rest : List Char}
    (calls : Relation.TransGen (Calls takeCharacters Rule.alternatives) (name, cs) (name, rest)) :
    Text.byteCount rest < Text.byteCount cs := by
  have inside : name.inFile = true := inFile_of_transGen calls
  have below : ∀ there, Relation.TransGen (Calls takeCharacters Rule.alternatives)
      (name, cs) there →
      callMeasure there < callMeasure (name, cs) := by
    intro there calls
    induction calls with
    | single call => exact calls_descends inside call
    | tail before call less =>
        exact Nat.lt_trans (calls_descends (inFile_of_transGen before) call) less
  have less := below _ calls
  rw [callMeasure, callMeasure] at less
  exact Nat.lt_of_mul_lt_mul_right (Nat.lt_of_add_lt_add_right less)

/-! ## Rounds -/

theorem byteCount_of_repeated {name : Rule} {part : Grammar Rule}
    (again : part ∈ (Rule.alternatives name).repeated) {cs rest : List Char} {nodes : List Node}
    (reads : Reads takeCharacters Rule.alternatives part cs (some (nodes, rest))) :
    Text.byteCount rest < Text.byteCount cs := by
  have good := List.all_eq_true.1 (Rule.repeated_takes name) part again
  rw [Bool.and_eq_true, Bool.not_eq_true'] at good
  exact (reads.size_le shrinks_takeCharacters good.1 rfl).2 good.2

/-! ## Every text reads in one way -/

theorem exists_reads {grammar : Grammar Rule}
    (only : grammar.Only (fun wanted => wanted ≠ .endOfText) Rule.inFile = true)
    (starts : grammar.startsBelow Rule.mayBeEmpty Rule.level Rule.levels Rule.levels = true)
    (cs : List Char) : ∃ reading, Reads takeCharacters Rule.alternatives grammar cs reading := by
  rcases exists_cutInto cs with ⟨tokens, cut⟩
  have reads := run_reads Rule.mayBeEmpty_alternatives (fun _ _ enough =>
    runRule_reads Rule.mayBeEmpty_alternatives Rule.startsBelow_alternatives enough) starts
      (Nat.le_refl (tokens.length * Rule.levels + Rule.levels))
  rcases reads.transfer takeLexeme_agree_takeCharacters Rule.only_alternatives only cut with
    ⟨reading, found, -⟩
  exact ⟨reading, found⟩

theorem exists_reads_seq {first second : Grammar Rule} {cs : List Char}
    (firstReads : ∃ reading, Reads takeCharacters Rule.alternatives first cs reading)
    (secondReads : ∀ rest, ∃ reading, Reads takeCharacters Rule.alternatives second rest reading) :
    ∃ reading, Reads takeCharacters Rule.alternatives (.seq first second) cs reading := by
  rcases firstReads with ⟨_ | ⟨nodes, rest⟩, firstReads⟩
  · exact ⟨none, .seqNone firstReads⟩
  · rcases secondReads rest with ⟨reading, secondReads⟩
    exact ⟨_, .seq firstReads secondReads⟩

theorem existsUnique_reads (name : Rule) (cs : List Char) :
    ∃! reading, Reads takeCharacters Rule.alternatives (.rule name) cs reading := by
  have some : ∃ reading, Reads takeCharacters Rule.alternatives (.rule name) cs reading := by
    by_cases inside : name.inFile = true
    · exact @exists_reads (.rule name) inside (by cases name <;> decide) cs
    · rw [Rule.inFile, decide_eq_true_eq, Decidable.not_not] at inside
      subst inside
      have package := @exists_reads (Rule.open? .package) rfl rfl
      have imports := @exists_reads (Rule.all .importDecl) rfl rfl
      have types := @exists_reads (Rule.all .topLevel) rfl rfl
      have ends (rest : List Char) : ∃ reading, Reads takeCharacters Rule.alternatives
          (.token .endOfText) rest reading := ⟨_, .token⟩
      rcases exists_reads_seq (package cs) fun rest => exists_reads_seq (imports rest) fun rest =>
        exists_reads_seq (types rest) ends with ⟨reading, reads⟩
      exact ⟨_, .rule (.branch reads)⟩
  exact some.imp fun reading reads => ⟨reads, fun _ other => other.unique reads⟩

theorem parse_of_reads (text : String) :
    (Reads takeCharacters Rule.alternatives (.rule .compilationUnit) text.toList none ∧
      ∃ error, parse text = .error error) ∨
    ∃ root tree, Reads takeCharacters Rule.alternatives (.rule .compilationUnit) text.toList
      (some ([root], [])) ∧ parse text = .ok tree ∧ tree.bare = root.bare := by
  rcases existsUnique_reads .compilationUnit text.toList with ⟨reading, reads, -⟩
  have same := reads.of_alternatives.unique (readsFile_readTokens text)
  rcases parse_cases text with ⟨error, missing, refused⟩ | ⟨root, tree, rest, fits, parsed, bare⟩
  · rw [missing] at same
    subst same
    exact .inl ⟨reads, error, refused⟩
  · rw [fits] at same
    subst same
    exact .inr ⟨root, tree, reads, parsed, bare⟩

/-- Reading ends on every text. No rule calls itself again, be it through others, where it
stands, and all calls end. Every round of a repetition takes a byte, be it one of a rule or one
of a pattern that takes characters; what the patterns take is what is cut. So every rule has one
outcome at every place, and every text is read as a tree or refused. -/
theorem reading_ends :
    (∀ {name : Rule} {cs rest : List Char},
      Relation.TransGen (Calls takeCharacters Rule.alternatives) (name, cs) (name, rest) →
        Text.byteCount rest < Text.byteCount cs) ∧
    WellFounded (fun there here => Calls takeCharacters Rule.alternatives here there) ∧
    (∀ (name : Rule), ∀ part ∈ (Rule.alternatives name).repeated,
      ∀ (cs rest : List Char) (nodes : List Node),
        Reads takeCharacters Rule.alternatives part cs (some (nodes, rest)) →
          Text.byteCount rest < Text.byteCount cs) ∧
    (∀ pattern ∈ patterns, ∀ part ∈ pattern.repeated, ∀ cs front rest : List Char,
      part.Fits cs (some (front, rest)) → Text.byteCount rest < Text.byteCount cs) ∧
    (∀ pattern ∈ patterns, ∀ cs : List Char, ∃! result, pattern.Fits cs result) ∧
    (∀ cs : List Char, (∃ taken, triviaPattern.Fits cs (some (taken, (Trivia.cut cs).2))) ∧
      wordPattern.Fits cs (cutWord cs) ∧ punctuationPattern.Fits cs (cutPunctuation cs) ∧
      literalPattern.Fits cs (cutLiteral cs) ∧
      endPattern.Fits cs (if cs.isEmpty then some ([], cs) else none)) ∧
    (∀ (name : Rule) (cs : List Char),
      ∃! reading, Reads takeCharacters Rule.alternatives (.rule name) cs reading) ∧
    ∀ text : String,
      (Reads takeCharacters Rule.alternatives (.rule .compilationUnit) text.toList none ∧
        ∃ error, parse text = .error error) ∨
      ∃ root tree, Reads takeCharacters Rule.alternatives (.rule .compilationUnit) text.toList
        (some ([root], [])) ∧ parse text = .ok tree ∧ tree.bare = root.bare := by
  refine ⟨byteCount_of_calls, wellFounded_calls, fun name part again cs rest nodes reads =>
    byteCount_of_repeated again reads, fun pattern member part again cs front rest fits =>
    byteCount_lt_of_round member again fits, fun pattern member cs => existsUnique_fits member cs,
    fun cs => ⟨?_, fits_wordPattern cs, fits_punctuationPattern cs, fits_literalPattern cs,
      fits_endPattern cs⟩, existsUnique_reads, parse_of_reads⟩
  rcases Trivia.exists_taken cs with ⟨taken, fits, -⟩
  exact ⟨taken, (fits _).2 rfl⟩

end Verbatim.Java
