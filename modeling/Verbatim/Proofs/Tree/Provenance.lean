import Verbatim.Proofs.Printing.Explicit
import Verbatim.Proofs.Tree.Hoisting

/-! What an origin vouches for. A node that remembers where it was read is still as it was read, and
so is everything below it; every change keeps it that way by forgetting. -/

namespace Verbatim.Node

def AboutOrigins (property : Node → Prop) : Prop :=
  ∀ node : Node, node.origin = none → property node

namespace AboutOrigins

variable {property : Node → Prop} {node : Node}

theorem everywhere (about : AboutOrigins property) (gone : node.origin = none)
    (inside : ∀ child ∈ node.children, child.Everywhere property) : node.Everywhere property :=
  everywhere_iff.2 ⟨about node gone, inside⟩

theorem hoist (about : AboutOrigins property) (holds : node.Everywhere property) :
    node.hoist.Everywhere property :=
  everywhere_hoist (fun _ _ => about _ rfl) (fun _ _ _ => about _ rfl) holds

end AboutOrigins

/-! ## Faithful nodes -/

/-- If the node remembers where it was read, it lies there, with all its tokens spelled out. -/
def Faithful (node : Node) : Prop :=
  node.origin.isSome → ∃ source start stop, node.Sealed source start stop ∧
    node.Everywhere Spelled

theorem aboutOrigins_faithful : AboutOrigins Faithful := by
  intro node gone read
  rw [gone] at read
  cases read

theorem Sealed.everywhere {source : String} {start stop : Nat} {node : Node}
    (lies : node.Sealed source start stop) :
    node.Everywhere fun below => ∃ start stop, below.Sealed source start stop := by
  induction node using Node.induction generalizing start stop with
  | step node induction =>
      rw [everywhere_iff]
      refine ⟨⟨start, stop, lies⟩, ?_⟩
      rcases node with ⟨head, children⟩
      rcases lies with ⟨_, _, _, inner, behind, -, -, -, -, -, inside, -⟩
      clear stop
      induction children generalizing inner with
      | nil => exact fun child member => absurd member List.not_mem_nil
      | cons first rest inductionRest =>
          rcases inside with ⟨middle, here, there⟩
          intro child member
          rcases List.mem_cons.1 member with rfl | member
          · exact induction child List.mem_cons_self here
          · refine inductionRest ?_ middle there child member
            exact fun child member => induction child (List.mem_cons_of_mem first member)

theorem Sealed.everywhere_faithful {source : String} {start stop : Nat} {node : Node}
    (lies : node.Sealed source start stop) (spelled : node.Everywhere Spelled) :
    node.Everywhere Faithful := by
  intro below member _
  rcases lies.everywhere below member with ⟨start, stop, here⟩
  exact ⟨source, start, stop, here, spelled.below member⟩

/-! Identities do not matter. -/

mutual

theorem sealed_withoutIds {source : String} : ∀ {start stop : Nat} (node : Node),
    node.withoutIds.Sealed source start stop ↔ node.Sealed source start stop
  | start, stop, ⟨head, children⟩ => by
      simp only [withoutIds_mk, Sealed, sealedInTurn_withoutIds children]

theorem sealedInTurn_withoutIds {source : String} : ∀ {start stop : Nat} (nodes : List Node),
    SealedInTurn source start stop (nodes.map withoutIds) ↔ SealedInTurn source start stop nodes
  | start, stop, [] => Iff.rfl
  | start, stop, node :: rest => by
      simp only [List.map_cons, SealedInTurn, sealed_withoutIds node,
        sealedInTurn_withoutIds rest]

end

theorem everywhere_faithful_withoutIds (node : Node) :
    node.withoutIds.Everywhere Faithful ↔ node.Everywhere Faithful := by
  apply everywhere_mapHeads
  intro node
  have spelled : node.withoutIds.Everywhere Spelled ↔ node.Everywhere Spelled := by
    apply everywhere_mapHeads
    apply spelled_mapHeads
    exact fun _ => ⟨rfl, rfl⟩
  have origin : node.withoutIds.origin = node.origin := by
    rw [withoutIds, toNodeHead_mapHeads]
  change node.withoutIds.Faithful ↔ node.Faithful
  simp only [Faithful, sealed_withoutIds, spelled, origin]

theorem everywhere_faithful_of_withoutIds_eq {node other : Node}
    (same : node.withoutIds = other.withoutIds) (faithful : other.Everywhere Faithful) :
    node.Everywhere Faithful := by
  rw [← everywhere_faithful_withoutIds, same, everywhere_faithful_withoutIds]
  exact faithful

/-! ## What a faithful node prints -/

theorem Faithful.explicit {node : Node} (faithful : node.Faithful) {origin : Origin}
    (read : node.origin = some origin) :
    (∀ below ∈ node.preorder, below.origin.isSome) ∧ origin.text = node.written ∧
      node.Everywhere Explicit := by
  rcases faithful (Option.isSome_iff_exists.2 ⟨origin, read⟩) with
    ⟨source, start, stop, lies, spelled⟩
  refine ⟨?_, ?_, ?_⟩
  · intro below member
    rcases lies.everywhere below member with ⟨_, _, here⟩
    rcases here.exists_origin with ⟨found, foundRead, -⟩
    rw [foundRead]
    rfl
  · rcases lies.exists_origin with ⟨same, sameRead, -, -, -, textEqual⟩
    rw [read] at sameRead
    cases sameRead
    exact textEqual
  · intro below member
    rcases lies.everywhere below member with ⟨_, _, here⟩
    exact ⟨here.formatted, spelled below member⟩

/-- Where a node remembers its origin, so does everything below it; the text there is the text of
the parts, and it is printed whether or not the parts forget where they were read. -/
theorem Faithful.prints {node : Node} (faithful : node.Faithful) {origin : Origin}
    (read : node.origin = some origin) :
    (∀ below ∈ node.preorder, below.origin.isSome) ∧ origin.text = node.written ∧
      node.print = .ok origin.text ∧ node.withoutOrigins.print = .ok origin.text := by
  rcases faithful.explicit read with ⟨origins, text, explicit⟩
  have bareExplicit : node.withoutOrigins.Everywhere Explicit := by
    apply (everywhere_explicit_mapHeads _ node).2 explicit
    exact fun _ => ⟨rfl, rfl, rfl⟩
  refine ⟨origins, text, print_of_origin read, ?_⟩
  rw [print_of_explicit bareExplicit, shown_withoutOrigins, text]

end Verbatim.Node
