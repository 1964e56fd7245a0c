import Mathlib.Data.List.Nodup
import Verbatim.Proofs.Tree.Views
import Verbatim.Tree.Queries

/-! Queries of trees. Whether a tree is looked through with a stack, by a search that stops at
the first hit or by adding up texts, its nodes are met in the order of their paths, and each of
them once. -/

namespace Verbatim

/-! ## The tour -/

namespace Tour

theorem listing_of_step?_eq_none {tour : Tour} (stuck : tour.step? = none) :
    tour.listing = tour.seen.toList := by
  have empty : tour.stack = #[] := Array.back?_eq_none_iff.1 (Option.map_eq_none_iff.1 stuck)
  simp [listing, empty]

theorem run_eq_listing (tour : Tour) : tour.run = tour.listing := by
  fun_induction run tour with
  | case1 tour stuck => exact (listing_of_step?_eq_none stuck).symm
  | case2 tour next stepped fewer induction => rw [induction, (step_listing stepped).1]

end Tour

namespace Node

theorem tour_eq_preorder (node : Node) : node.tour = node.preorder := by
  rw [tour, Tour.run_eq_listing]
  simp [Tour.listing, Tour.start]

/-! ## Paths -/

mutual

/-- The paths to all nodes, each before those that lead on from it. -/
def paths : Node → List (List Nat)
  | ⟨_, children⟩ => [] :: pathsAmong 0 children

def pathsAmong (place : Nat) : List Node → List (List Nat)
  | [] => []
  | node :: rest => node.paths.map (place :: ·) ++ pathsAmong (place + 1) rest

end

theorem exists_of_mem_pathsAmong {place : Nat} {nodes : List Node} {path : List Nat}
    (member : path ∈ pathsAmong place nodes) :
    ∃ first rest, path = first :: rest ∧ place ≤ first := by
  induction nodes generalizing place with
  | nil => exact absurd member List.not_mem_nil
  | cons node rest induction =>
      rw [pathsAmong, List.mem_append, List.mem_map] at member
      rcases member with ⟨inner, -, rfl⟩ | later
      · exact ⟨place, inner, rfl, Nat.le_refl place⟩
      · obtain ⟨first, inner, rfl, le⟩ := induction later
        exact ⟨first, inner, rfl, Nat.le_of_succ_le le⟩

mutual

theorem pairwise_paths : ∀ node : Node, node.paths.Pairwise (· < ·)
  | ⟨_, children⟩ => by
      rw [paths, List.pairwise_cons]
      refine ⟨?_, pairwise_pathsAmong 0 children⟩
      intro path member
      obtain ⟨first, rest, rfl, -⟩ := exists_of_mem_pathsAmong member
      exact List.nil_lt_cons first rest

theorem pairwise_pathsAmong : ∀ (place : Nat) (nodes : List Node),
    (pathsAmong place nodes).Pairwise (· < ·)
  | _, [] => .nil
  | place, node :: rest => by
      rw [pathsAmong, List.pairwise_append, List.pairwise_map]
      refine ⟨(pairwise_paths node).imp List.cons_lt_cons_self.2,
        pairwise_pathsAmong (place + 1) rest, ?_⟩
      intro path member other otherMember
      obtain ⟨inner, -, rfl⟩ := List.mem_map.1 member
      obtain ⟨first, behind, rfl, le⟩ := exists_of_mem_pathsAmong otherMember
      exact List.cons_lt_cons_iff.2 (.inl le)

end

theorem map_descendant?_paths (node : Node) :
    node.paths.map node.descendant? = node.preorder.map some := by
  induction node using Node.induction with
  | step node induction =>
      rcases node with ⟨head, children⟩
      -- the children from a place on; those in front of it are looked up too
      have among (before nodes : List Node) (all : children = before ++ nodes) :
          (pathsAmong before.length nodes).map (descendant? ⟨head, children⟩) =
            (nodes.flatMap preorder).map some := by
        induction nodes generalizing before with
        | nil => rfl
        | cons child rest later =>
            have inside := induction child (by simp [all])
            have others := later (before ++ [child]) (by simp [all])
            rw [List.length_append] at others
            have here : children[before.length]? = some child := by simp [all]
            rw [pathsAmong, List.map_append, List.map_map, List.flatMap_cons,
              List.map_append, ← inside]
            congr 1
            apply List.map_congr_left
            intro path _
            simp [descendant?, here]
      rw [paths, preorder_eq, List.map_cons, List.map_cons]
      exact congrArg _ (among [] children rfl)

theorem mem_pathsAmong {start place : Nat} {nodes : List Node} {child : Node} {path : List Nat}
    (isChild : nodes[place]? = some child) (member : path ∈ child.paths) :
    (start + place) :: path ∈ pathsAmong start nodes := by
  induction nodes generalizing start place with
  | nil => simp at isChild
  | cons node rest induction =>
      rw [pathsAmong, List.mem_append]
      cases place with
      | zero =>
          cases isChild
          exact .inl (List.mem_map.2 ⟨path, member, rfl⟩)
      | succ place =>
          have later : (start + 1 + place) :: path ∈ pathsAmong (start + 1) rest :=
            induction isChild
          rw [Nat.add_assoc, Nat.add_comm 1] at later
          exact .inr later

theorem mem_paths_iff {node : Node} {path : List Nat} :
    path ∈ node.paths ↔ (node.descendant? path).isSome := by
  constructor
  · intro member
    have found : node.descendant? path ∈ node.preorder.map some := by
      rw [← map_descendant?_paths]
      exact List.mem_map_of_mem member
    obtain ⟨below, -, equal⟩ := List.mem_map.1 found
    rw [← equal]
    rfl
  · intro found
    induction path generalizing node with
    | nil =>
        cases node
        exact List.mem_cons_self
    | cons place path induction =>
        obtain ⟨below, leads⟩ := Option.isSome_iff_exists.1 found
        obtain ⟨child, isChild, inside⟩ := Option.bind_eq_some_iff.1 leads
        have listed := induction (Option.isSome_iff_exists.2 ⟨below, inside⟩)
        have later : (0 + place) :: path ∈ pathsAmong 0 node.children :=
          mem_pathsAmong isChild listed
        rw [Nat.zero_add] at later
        cases node
        exact List.mem_cons_of_mem _ later

/-! ## Searching -/

mutual

theorem first?_eq (condition : Node → Bool) :
    ∀ node : Node, node.first? condition = node.find? condition
  | ⟨head, children⟩ => by
      rw [first?, find?, preorder, List.find?_cons, firstAmong?_eq condition children]
      cases condition ⟨head, children⟩ <;> rfl

theorem firstAmong?_eq (condition : Node → Bool) :
    ∀ nodes : List Node, firstAmong? condition nodes = (preorderOfAll nodes).find? condition
  | [] => rfl
  | node :: rest => by
      rw [firstAmong?, preorderOfAll, List.find?_append, first?_eq condition node,
        firstAmong?_eq condition rest, find?]
      cases node.preorder.find? condition <;> rfl

end

/-- Where no two nodes have the same number, the search for a number finds the node that has it, and
nothing else. -/
theorem byId?_eq_some_iff {node found : Node} {id : NodeId}
    (distinct : (node.preorder.map (·.id)).Nodup) :
    node.byId? id = some found ↔ found ∈ node.preorder ∧ found.id = id := by
  rw [byId?, first?_eq, find?]
  constructor
  · intro hit
    exact ⟨List.mem_of_find?_eq_some hit, by simpa using List.find?_some hit⟩
  · rintro ⟨member, rfl⟩
    obtain ⟨hit, isHit⟩ : ∃ hit, node.preorder.find? (fun other => other.id = found.id) =
        some hit :=
      Option.isSome_iff_exists.1 (List.find?_isSome.2 ⟨found, member, decide_eq_true rfl⟩)
    have same : hit.id = found.id := by simpa using List.find?_some isHit
    rw [isHit, List.inj_on_of_nodup_map distinct (List.mem_of_find?_eq_some isHit) member same]

/-! ## Texts -/

mutual

theorem collectTokens_eq (collected : String) :
    ∀ node : Node, node.collectTokens collected = collected ++ node.tokensText
  | ⟨head, children⟩ => by
      rw [collectTokens, collectTokensOfAll_eq _ children, tokensText]
      cases head.text <;> simp [String.append_assoc]

theorem collectTokensOfAll_eq (collected : String) :
    ∀ nodes : List Node, collectTokensOfAll collected nodes = collected ++ tokensTextOfAll nodes
  | [] => by simp [collectTokensOfAll, tokensTextOfAll]
  | node :: rest => by
      rw [collectTokensOfAll, collectTokensOfAll_eq _ rest, collectTokens_eq collected node,
        tokensTextOfAll, String.append_assoc]

end

mutual

theorem tokensText_eq_join :
    ∀ node : Node, node.tokensText = String.join (node.preorder.map fun part => part.text.getD "")
  | ⟨head, children⟩ => by
      rw [tokensText, preorder, List.map_cons, String.join_cons, tokensTextOfAll_eq_join children]

theorem tokensTextOfAll_eq_join : ∀ nodes : List Node, tokensTextOfAll nodes =
    String.join ((preorderOfAll nodes).map fun part => part.text.getD "")
  | [] => by simp [tokensTextOfAll, preorderOfAll]
  | node :: rest => by
      rw [tokensTextOfAll, preorderOfAll, List.map_append, String.join_append,
        tokensText_eq_join node, tokensTextOfAll_eq_join rest]

end

/-- The tour lists the nodes at all paths, each once and in the order of the paths, which is the
preorder. The search finds the first node of this list that satisfies the condition, and nothing
only where there is none; where no two nodes have the same number, the search for a number finds
the node that has it, if there is one. The texts that are collected are those of the list. -/
theorem queries_follow_preorder (node : Node) :
    (∃ paths : List (List Nat), paths.Pairwise (· < ·) ∧
      (∀ path, path ∈ paths ↔ (node.descendant? path).isSome) ∧
      paths.map node.descendant? = node.tour.map some) ∧
    node.tour = node.preorder ∧
    (∀ condition : Node → Bool,
      (∀ found, node.first? condition = some found ↔ ∃ before behind,
        node.tour = before ++ found :: behind ∧ condition found ∧
        ∀ other ∈ before, !condition other) ∧
      (node.first? condition = none ↔ ∀ other ∈ node.tour, !condition other) ∧
      node.first? condition = node.find? condition) ∧
    ((node.tour.map (·.id)).Nodup → ∀ id found,
      node.byId? id = some found ↔ found ∈ node.tour ∧ found.id = id) ∧
    node.collectTokens "" = String.join (node.tour.map fun part => part.text.getD "") ∧
    node.collectTokens "" = node.tokensText := by
  rw [tour_eq_preorder]
  refine ⟨⟨node.paths, node.pairwise_paths, fun path => mem_paths_iff, node.map_descendant?_paths⟩,
    rfl, ?_, ?_, ?_, ?_⟩
  · intro condition
    refine ⟨?_, ?_, first?_eq condition node⟩
    · intro found
      rw [first?_eq, find?, List.find?_eq_some_iff_append]
      constructor
      · rintro ⟨holds, before, behind, equal, others⟩
        exact ⟨before, behind, equal, holds, others⟩
      · rintro ⟨before, behind, equal, holds, others⟩
        exact ⟨holds, before, behind, equal, others⟩
    · rw [first?_eq, find?, List.find?_eq_none]
      simp
  · intro distinct id found
    exact byId?_eq_some_iff distinct
  · rw [collectTokens_eq, String.empty_append, tokensText_eq_join]
  · rw [collectTokens_eq, String.empty_append]

end Node

end Verbatim
