import Verbatim.Proofs.Java.Regions
import Verbatim.Proofs.Java.Shapes
import Verbatim.Proofs.Tree.Pruning

/-! Leaving out tokens. Where some of the nodes that were read are gone, the tokens that are
left are read as the nodes that are left. That is said of a part of a file in terms of what may
stand behind it, and of what stands at its front afterwards. -/

namespace Verbatim.Java

open Node (withoutAll)

/-- Of the tokens that a grammar took some are left out, and it reads the nodes that are left from
the others whenever what stands behind them is as it should be `next`; what then stands at the front
is as it was to be `after`. -/
def Thins (gone : Node → Bool) (next after : List Lexeme → Prop) (grammar : Grammar Rule)
    (input : List Lexeme) (nodes : List Node) (rest : List Lexeme) : Prop :=
  ∃ taken left, input = taken ++ rest ∧ left.Sublist taken ∧ ∀ other, next other →
    Reads takeLexeme Rule.body grammar (left ++ other) (some (withoutAll gone nodes, other)) ∧
      after (left ++ other)

def SameHead (input changed : List Lexeme) : Prop := changed.head? = input.head?

theorem SameHead.takeLexeme_eq_none_iff {input changed : List Lexeme}
    (same : SameHead input changed)
    (wanted : Wanted) : takeLexeme wanted changed = none ↔ takeLexeme wanted input = none := by
  cases input <;> cases changed <;> simp_all [SameHead, takeLexeme]

/-- The mark does not stand here. -/
def Refuses (text : String) (input : List Lexeme) : Prop :=
  takeLexeme (.punctuation text) input = none

namespace Thins

variable {gone : Node → Bool} {next after last follows later : List Lexeme → Prop}
  {first second part : Grammar Rule} {input between rest : List Lexeme} {nodes others : List Node}

theorem mono (thins : Thins gone next after part input nodes rest)
    (enough : ∀ other, last other → next other)
    (tells : ∀ {changed other left}, last other →
      Reads takeLexeme Rule.body part changed (some (left, other)) →
      after changed → later changed) :
    Thins gone last later part input nodes rest := by
  rcases thins with ⟨taken, left, rfl, sublist, reads⟩
  refine ⟨taken, left, rfl, sublist, fun other isLast => ?_⟩
  rcases reads other (enough other isLast) with ⟨partReads, isAfter⟩
  exact ⟨partReads, tells isLast partReads isAfter⟩

theorem seq (firstThins : Thins gone next after first input nodes between)
    (secondThins : Thins gone last follows second between others rest)
    (carries : ∀ changed, follows changed → next changed) :
    Thins gone last after (.seq first second) input (nodes ++ others) rest := by
  rcases firstThins with ⟨taken, left, rfl, sublist, reads⟩
  rcases secondThins with ⟨more, kept, rfl, moreSublist, moreReads⟩
  refine ⟨taken ++ more, left ++ kept, by simp, sublist.append moreSublist, fun other isLast => ?_⟩
  rcases moreReads other isLast with ⟨secondReads, isFollowing⟩
  rcases reads (kept ++ other) (carries _ isFollowing) with ⟨firstReads, isAfter⟩
  rw [List.append_assoc, Node.withoutAll_append]
  exact ⟨.seq firstReads secondReads, isAfter⟩

theorem rule {name : Rule} (thins : Thins gone next after (Rule.body name) input nodes rest) :
    Thins gone next after (.rule name) input nodes rest := by
  rcases thins with ⟨taken, left, rfl, sublist, reads⟩
  exact ⟨taken, left, rfl, sublist, fun other isNext => ⟨.rule (reads other isNext).1,
    (reads other isNext).2⟩⟩

theorem branch {kind : Kind} (thins : Thins gone next after part input nodes rest)
    (stays : gone (Grammar.grow kind nodes) = false) :
    Thins gone next after (.branch kind part) input [Grammar.grow kind nodes] rest := by
  rcases thins with ⟨taken, left, rfl, sublist, reads⟩
  refine ⟨taken, left, rfl, sublist, fun other isNext => ⟨?_, (reads other isNext).2⟩⟩
  rw [Node.withoutAll_singleton stays]
  exact .branch (reads other isNext).1

theorem optional (reads : Reads takeLexeme Rule.body (.optional part) input (some (nodes, rest)))
    (present : Reads takeLexeme Rule.body part input (some (nodes, rest)) →
      Thins gone next after part input nodes rest)
    (absent : Reads takeLexeme Rule.body part input none → rest = input → ∀ other, next other →
      Reads takeLexeme Rule.body part other none ∧ after other) :
    Thins gone next after (.optional part) input nodes rest := by
  rcases reads.of_optional with someReads | ⟨missing, rfl, rfl⟩
  · rcases present someReads with ⟨taken, left, rfl, sublist, reads⟩
    exact ⟨taken, left, rfl, sublist, fun other isNext => ⟨.optional (reads other isNext).1,
      (reads other isNext).2⟩⟩
  · exact ⟨[], [], rfl, .slnil, fun other isNext => ⟨.optional (absent missing rfl other isNext).1,
      (absent missing rfl other isNext).2⟩⟩

theorem choice_first (thins : Thins gone next after first input nodes rest) :
    Thins gone next after (.choice first second) input nodes rest := by
  rcases thins with ⟨taken, left, rfl, sublist, reads⟩
  exact ⟨taken, left, rfl, sublist, fun other isNext => ⟨.choiceFirst (reads other isNext).1,
    (reads other isNext).2⟩⟩

theorem choice_second (thins : Thins gone next after second input nodes rest)
    (apart : ∀ {changed other left},
      Reads takeLexeme Rule.body second changed (some (left, other)) →
      Reads takeLexeme Rule.body first changed none) :
    Thins gone next after (.choice first second) input nodes rest := by
  rcases thins with ⟨taken, left, rfl, sublist, reads⟩
  refine ⟨taken, left, rfl, sublist, fun other isNext => ?_⟩
  rcases reads other isNext with ⟨secondReads, isAfter⟩
  exact ⟨.choiceSecond (apart secondReads) secondReads, isAfter⟩

theorem assoc {third : Grammar Rule}
    (thins : Thins gone next after (.seq (.seq first second) third) input nodes rest) :
    Thins gone next after (.seq first (.seq second third)) input nodes rest := by
  rcases thins with ⟨taken, left, rfl, sublist, reads⟩
  refine ⟨taken, left, rfl, sublist, fun other isNext => ⟨?_, (reads other isNext).2⟩⟩
  exact Reads.assoc (reads other isNext).1

theorem token {wanted : Wanted}
    (stays : ∀ node ∈ nodes, node.Everywhere fun part => gone part = false)
    (reads : Reads takeLexeme Rule.body (.token wanted) input (some (nodes, rest))) :
    Thins gone Anything (SameHead input) (.token wanted) input nodes rest := by
  rw [Thins, Node.withoutAll_of_everywhere nodes stays]
  rcases reads.of_token with ⟨lexeme, kind, rfl, accepted, rfl⟩
  exact ⟨[lexeme], [lexeme], rfl, .refl _, fun other _ => ⟨.token_of_accepts accepted other, rfl⟩⟩

theorem of_fits {taken : List Lexeme}
    (stays : ∀ node ∈ nodes, node.Everywhere fun part => gone part = false)
    (fits : Fits next part taken nodes) (equal : input = taken ++ rest) :
    Thins gone next (fun changed => rest.length < input.length → SameHead input changed) part input
      nodes rest := by
  subst equal
  rw [Thins, Node.withoutAll_of_everywhere nodes stays]
  refine ⟨taken, taken, rfl, .refl _, fun other isNext => ⟨fits other isNext, fun longer => ?_⟩⟩
  cases taken with
  | nil => exact absurd longer (Nat.lt_irrefl _)
  | cons token more => rfl

/-- A relation between what stood at the front and what stands there afterwards carries through a
repetition, in which nodes may be gone as a whole. -/
theorem many (relation : List Lexeme → List Lexeme → Prop) {size : Nat}
    (takes : part.mayTakeNothing Rule.mayBeEmpty = false) (small : input.length ≤ size)
    (each : ∀ {input rest nodes}, input.length ≤ size →
      Reads takeLexeme Rule.body part input (some (nodes, rest)) →
      Thins gone (relation rest) (relation input) part input nodes rest ∨
        withoutAll gone nodes = [] ∧ ∀ other, relation rest other → relation input other)
    (reads : Reads takeLexeme Rule.body (.many part) input (some (nodes, rest))) :
    Thins gone (fun other => Reads takeLexeme Rule.body part other none ∧ relation rest other)
      (relation input) (.many part) input nodes rest := by
  induction length : input.length using Nat.strongRecOn generalizing input nodes with
  | ind length induction =>
    subst length
    rcases reads.of_many with ⟨-, rfl, rfl⟩ | ⟨nodes, between, others, rfl, partReads, moreReads⟩
    · exact ⟨[], [], rfl, .slnil, fun other isNext => ⟨.manyEnd isNext.1, isNext.2⟩⟩
    · have shorter := (partReads.rest_length Rule.mayBeEmpty_sound).2 takes
      rcases induction between.length shorter (Nat.le_trans (Nat.le_of_lt shorter) small) moreReads
        rfl with ⟨more, kept, rfl, moreSublist, moreThins⟩
      rcases each small partReads with ⟨taken, left, rfl, sublist, thins⟩ | ⟨missing, carries⟩
      · refine ⟨taken ++ more, left ++ kept, by simp, sublist.append moreSublist,
          fun other isNext => ?_⟩
        rcases moreThins other isNext with ⟨laterReads, related⟩
        rcases thins (kept ++ other) related with ⟨firstReads, isRelated⟩
        rw [List.append_assoc, Node.withoutAll_append]
        exact ⟨.manyMore firstReads laterReads, isRelated⟩
      · rcases partReads.yields rfl with ⟨taken, rfl, -⟩
        refine ⟨taken ++ more, kept, by simp, moreSublist.trans (List.sublist_append_right _ _),
          fun other isNext => ?_⟩
        rcases moreThins other isNext with ⟨laterReads, related⟩
        rw [Node.withoutAll_append, missing]
        exact ⟨laterReads, carries _ related⟩

end Thins

end Verbatim.Java
