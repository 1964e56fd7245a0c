import Verbatim.Java.Rules

/-! What it means for a grammar to fit. The relation speaks of any kind of input that tokens can be
taken from, characters as well as tokens that were cut before, and it bounds nothing: neither how
deep rules call each other nor how often a part is repeated. -/

namespace Verbatim.Java

variable {Rule α β γ : Type}

/-- How a token is taken off the front of an input. -/
abbrev Take (α : Type) := Wanted → α → Option (Node × α)

/-- What a grammar gives back: the nodes it read and the input that is left, if it fits. -/
abbrev Reading (α : Type) := Option (List Node × α)

/-- What was read after other nodes. -/
def Reading.after (nodes : List Node) (reading : Reading α) : Reading α :=
  reading.map fun (more, rest) => (nodes ++ more, rest)

/-- What was read as the children of one node. -/
def Reading.under (kind : Kind) (reading : Reading α) : Reading α :=
  reading.map fun (nodes, rest) => ([Grammar.grow kind nodes], rest)

/-- A grammar gives this reading of this input. -/
inductive Reads (take : Take α) (body : Rule → Grammar Rule) :
    Grammar Rule → α → Reading α → Prop
  | token {wanted : Wanted} {input : α} :
      Reads take body (.token wanted) input
        ((take wanted input).map fun (node, rest) => ([node], rest))
  | seq {first second : Grammar Rule} {input rest : α} {nodes : List Node} {reading : Reading α} :
      Reads take body first input (some (nodes, rest)) → Reads take body second rest reading →
      Reads take body (.seq first second) input (reading.after nodes)
  | seqNone {first second : Grammar Rule} {input : α} :
      Reads take body first input none → Reads take body (.seq first second) input none
  | choiceFirst {first second : Grammar Rule} {input rest : α} {nodes : List Node} :
      Reads take body first input (some (nodes, rest)) →
      Reads take body (.choice first second) input (some (nodes, rest))
  | choiceSecond {first second : Grammar Rule} {input : α} {reading : Reading α} :
      Reads take body first input none → Reads take body second input reading →
      Reads take body (.choice first second) input reading
  | fits {first next other : Grammar Rule} {input rest : α} {nodes : List Node}
      {reading : Reading α} :
      Reads take body first input (some (nodes, rest)) → Reads take body next rest reading →
      Reads take body (.ifFits first next other) input (reading.after nodes)
  | fitsNot {first next other : Grammar Rule} {input : α} {reading : Reading α} :
      Reads take body first input none → Reads take body other input reading →
      Reads take body (.ifFits first next other) input reading
  | optional {part : Grammar Rule} {input : α} {reading : Reading α} :
      Reads take body part input reading →
      Reads take body (.optional part) input (reading <|> some ([], input))
  | manyEnd {part : Grammar Rule} {input : α} :
      Reads take body part input none → Reads take body (.many part) input (some ([], input))
  | manyMore {part : Grammar Rule} {input rest : α} {nodes : List Node} {reading : Reading α} :
      Reads take body part input (some (nodes, rest)) →
      Reads take body (.many part) rest reading →
      Reads take body (.many part) input (reading.after nodes)
  | ahead {part : Grammar Rule} {input : α} {reading : Reading α} :
      Reads take body part input reading →
      Reads take body (.ahead part) input (if reading.isSome then some ([], input) else none)
  | notAhead {part : Grammar Rule} {input : α} {reading : Reading α} :
      Reads take body part input reading →
      Reads take body (.notAhead part) input (if reading.isSome then none else some ([], input))
  | branch {kind : Kind} {part : Grammar Rule} {input : α} {reading : Reading α} :
      Reads take body part input reading →
      Reads take body (.branch kind part) input (reading.under kind)
  | rule {name : Rule} {input : α} {reading : Reading α} :
      Reads take body (body name) input reading → Reads take body (.rule name) input reading

/-! ## There is one reading -/

theorem Reads.unique {take : Take α} {body : Rule → Grammar Rule} {grammar : Grammar Rule}
    {input : α} {reading other : Reading α} (reads : Reads take body grammar input reading)
    (otherReads : Reads take body grammar input other) : reading = other := by
  induction reads generalizing other with
  | token =>
      cases otherReads
      rfl
  | seq _ _ first second =>
      cases otherReads with
      | seq otherFirst otherSecond =>
          cases first otherFirst
          rw [second otherSecond]
      | seqNone otherFirst => cases first otherFirst
  | seqNone _ first =>
      cases otherReads with
      | seq otherFirst _ => cases first otherFirst
      | seqNone _ => rfl
  | choiceFirst _ first =>
      cases otherReads with
      | choiceFirst otherFirst => exact first otherFirst
      | choiceSecond otherFirst _ => cases first otherFirst
  | choiceSecond _ _ first second =>
      cases otherReads with
      | choiceFirst otherFirst => cases first otherFirst
      | choiceSecond _ otherSecond => exact second otherSecond
  | fits _ _ first next =>
      cases otherReads with
      | fits otherFirst otherNext =>
          cases first otherFirst
          rw [next otherNext]
      | fitsNot otherFirst _ => cases first otherFirst
  | fitsNot _ _ first next =>
      cases otherReads with
      | fits otherFirst _ => cases first otherFirst
      | fitsNot _ otherNext => exact next otherNext
  | optional _ part =>
      cases otherReads with
      | optional otherPart => rw [part otherPart]
  | manyEnd _ part =>
      cases otherReads with
      | manyEnd _ => rfl
      | manyMore otherPart _ => cases part otherPart
  | manyMore _ _ part more =>
      cases otherReads with
      | manyEnd otherPart => cases part otherPart
      | manyMore otherPart otherMore =>
          cases part otherPart
          rw [more otherMore]
  | ahead _ part =>
      cases otherReads with
      | ahead otherPart => rw [part otherPart]
  | notAhead _ part =>
      cases otherReads with
      | notAhead otherPart => rw [part otherPart]
  | branch _ part =>
      cases otherReads with
      | branch otherPart => rw [part otherPart]
  | rule _ part =>
      cases otherReads with
      | rule otherPart => exact part otherPart

/-! ## The same reading of other inputs

Where two inputs give tokens that look the same, a grammar reads nodes that look the same. -/

/-- All tokens and rules in a grammar are among the given ones. -/
def Grammar.Only (tokens : Wanted → Bool) (rules : Rule → Bool) : Grammar Rule → Bool
  | .token wanted => tokens wanted
  | .seq first second | .choice first second => first.Only tokens rules && second.Only tokens rules
  | .ifFits first next other =>
    first.Only tokens rules && next.Only tokens rules && other.Only tokens rules
  | .optional part | .many part | .ahead part | .notAhead part | .branch _ part =>
    part.Only tokens rules
  | .rule name => rules name

theorem Grammar.only_anything (grammar : Grammar Rule) :
    grammar.Only (fun _ => true) (fun _ => true) = true := by
  induction grammar <;> simp_all [Grammar.Only]

/-- Both readings fit or none does; the nodes have the same views and the inputs are related. -/
inductive Reading.Alike (view : Node → γ) (related : α → β → Prop) :
    Reading α → Reading β → Prop
  | none : Alike view related none none
  | some {nodes others : List Node} {rest : α} {left : β} :
      nodes.map view = others.map view → related rest left →
      Alike view related (some (nodes, rest)) (some (others, left))

/-- Two ways of taking tokens agree on related inputs, as far as the tokens are among the given
ones. The view of a node that grows from others depends on their views only. -/
structure Agree (take : Take α) (other : Take β) (tokens : Wanted → Bool) (view : Node → γ)
    (related : α → β → Prop) : Prop where
  token : ∀ {wanted : Wanted} {input : α} {otherInput : β}, tokens wanted = true →
    related input otherInput →
    Reading.Alike view related ((take wanted input).map fun (node, rest) => ([node], rest))
      ((other wanted otherInput).map fun (node, rest) => ([node], rest))
  grow : ∀ (kind : Kind) {nodes others : List Node}, nodes.map view = others.map view →
    view (Grammar.grow kind nodes) = view (Grammar.grow kind others)

namespace Reading.Alike

variable {view : Node → γ} {related : α → β → Prop} {reading : Reading α} {other : Reading β}

theorem after (alike : Alike view related reading other) {nodes others : List Node}
    (same : nodes.map view = others.map view) :
    Alike view related (reading.after nodes) (other.after others) := by
  cases alike with
  | none => exact .none
  | some sameRest relatedRest =>
      exact .some (by rw [List.map_append, List.map_append, same, sameRest]) relatedRest

theorem isSome_eq (alike : Alike view related reading other) : reading.isSome = other.isSome := by
  cases alike <;> rfl

theorem ahead (same : reading.isSome = other.isSome) {input : α} {left : β}
    (here : related input left) :
    Alike view related (if reading.isSome then Option.some ([], input) else Option.none)
      (if other.isSome then Option.some ([], left) else Option.none) := by
  rw [same]
  split
  · exact .some rfl here
  · exact .none

theorem notAhead (same : reading.isSome = other.isSome) {input : α} {left : β}
    (here : reading.isSome = false → related input left) :
    Alike view related (if reading.isSome then Option.none else Option.some ([], input))
      (if other.isSome then Option.none else Option.some ([], left)) := by
  rw [← same]
  cases missing : reading.isSome with
  | true => exact .none
  | false => exact .some rfl (here missing)

end Reading.Alike

/-- What a grammar reads on one side it reads on the other. -/
theorem Reads.transfer {take : Take α} {otherTake : Take β} {body : Rule → Grammar Rule}
    {tokens : Wanted → Bool} {rules : Rule → Bool} {view : Node → γ} {related : α → β → Prop}
    (agree : Agree take otherTake tokens view related)
    (closed : ∀ name, rules name = true → (body name).Only tokens rules = true)
    {grammar : Grammar Rule} {input : α} {reading : Reading α}
    (reads : Reads take body grammar input reading) (only : grammar.Only tokens rules = true)
    {otherInput : β} (here : related input otherInput) :
    ∃ other, Reads otherTake body grammar otherInput other ∧
      Reading.Alike view related reading other := by
  -- on the first reading: the other one comes to the same decision wherever a token is asked for
  induction reads generalizing otherInput with
  | token => exact ⟨_, .token, agree.token only here⟩
  | seq _ _ first second =>
      rw [Grammar.Only, Bool.and_eq_true] at only
      rcases first only.1 here with ⟨_, firstReads, ⟨⟩ | ⟨same, there⟩⟩
      rcases second only.2 there with ⟨other, secondReads, alike⟩
      exact ⟨_, .seq firstReads secondReads, alike.after same⟩
  | seqNone _ first =>
      rw [Grammar.Only, Bool.and_eq_true] at only
      rcases first only.1 here with ⟨_, firstReads, ⟨⟩⟩
      exact ⟨none, .seqNone firstReads, .none⟩
  | choiceFirst _ first =>
      rw [Grammar.Only, Bool.and_eq_true] at only
      rcases first only.1 here with ⟨_, firstReads, ⟨⟩ | ⟨same, there⟩⟩
      exact ⟨_, .choiceFirst firstReads, .some same there⟩
  | choiceSecond _ _ first second =>
      rw [Grammar.Only, Bool.and_eq_true] at only
      rcases first only.1 here with ⟨_, firstReads, ⟨⟩⟩
      rcases second only.2 here with ⟨other, secondReads, alike⟩
      exact ⟨other, .choiceSecond firstReads secondReads, alike⟩
  | fits _ _ first next =>
      rw [Grammar.Only, Bool.and_eq_true, Bool.and_eq_true] at only
      rcases first only.1.1 here with ⟨_, firstReads, ⟨⟩ | ⟨same, there⟩⟩
      rcases next only.1.2 there with ⟨other, nextReads, alike⟩
      exact ⟨_, .fits firstReads nextReads, alike.after same⟩
  | fitsNot _ _ first other =>
      rw [Grammar.Only, Bool.and_eq_true, Bool.and_eq_true] at only
      rcases first only.1.1 here with ⟨_, firstReads, ⟨⟩⟩
      rcases other only.2 here with ⟨reading, otherReads, alike⟩
      exact ⟨reading, .fitsNot firstReads otherReads, alike⟩
  | optional _ part =>
      rcases part only here with ⟨_, partReads, alike⟩
      refine ⟨_, .optional partReads, ?_⟩
      cases alike with
      | none => exact .some rfl here
      | some same there => exact .some same there
  | manyEnd _ part =>
      rcases part only here with ⟨_, partReads, ⟨⟩⟩
      exact ⟨_, .manyEnd partReads, .some rfl here⟩
  | manyMore _ _ part more =>
      rcases part only here with ⟨_, partReads, ⟨⟩ | ⟨same, there⟩⟩
      rcases more only there with ⟨other, moreReads, alike⟩
      exact ⟨_, .manyMore partReads moreReads, alike.after same⟩
  | ahead _ part =>
      rcases part only here with ⟨_, partReads, alike⟩
      exact ⟨_, .ahead partReads, .ahead alike.isSome_eq here⟩
  | notAhead _ part =>
      rcases part only here with ⟨_, partReads, alike⟩
      exact ⟨_, .notAhead partReads, .notAhead alike.isSome_eq fun _ => here⟩
  | branch _ part =>
      rcases part only here with ⟨_, partReads, alike⟩
      refine ⟨_, .branch partReads, ?_⟩
      cases alike with
      | none => exact .none
      | some same there =>
          refine .some ?_ there
          rw [List.map_singleton, List.map_singleton, agree.grow _ same]
  | @rule name _ _ _ part =>
      rcases part (closed name only) here with ⟨other, partReads, alike⟩
      exact ⟨other, .rule partReads, alike⟩

end Verbatim.Java
