import Mathlib.Data.List.Induction
import Mathlib.Data.List.Nodup
import Verbatim.Proofs.Edits.InPlace
import Verbatim.Proofs.Printing.Marking
import Verbatim.Proofs.Recipe.Cycles
import Verbatim.Proofs.Tree.Renumbering

/-! What searches leave in a tree: each marker once, on every identifier that a search with this
marker looks for. In whatever order searches are run, and however often, there is nothing more
to find afterwards. -/

namespace Verbatim

open Node

namespace FindIdentifier

/-- The search is for heads like this one. -/
def Seeks (search : FindIdentifier) (head : NodeHead) : Prop :=
  head.kind = .identifier ∧ head.text = some search.spelling

/-- The head without markers and origin. -/
def unmarkedHead (head : NodeHead) : NodeHead := { head with markers := [], origin := none }

/-- A head without markers, over which searches have gone: it has the markers of those that were
for it, each once, and is as it was otherwise. -/
structure Marks (searches : List FindIdentifier) (head new : NodeHead) : Prop where
  same : unmarkedHead new = unmarkedHead head
  once : new.markers.Nodup
  markers : ∀ marker, marker ∈ new.markers ↔
    ∃ search ∈ searches, search.Seeks head ∧ search.marker = marker

variable {searches done : List FindIdentifier} {search : FindIdentifier}

theorem eq_of_marker {other : FindIdentifier} {head : NodeHead} (seeks : search.Seeks head)
    (alike : other.Seeks head) (same : search.marker = other.marker) : search = other := by
  rcases search with ⟨spelling, description⟩
  rcases other with ⟨otherSpelling, otherDescription⟩
  cases seeks.2.symm.trans alike.2
  cases same
  rfl

namespace Marks

variable {head new : NodeHead}

theorem refl (bare : head.markers = []) : Marks [] head { head with origin := none } where
  same := rfl
  once := by simp [bare]
  markers := by simp [bare]

theorem kind (marks : Marks done head new) : new.kind = head.kind :=
  (congrArg NodeHead.kind marks.same :)

theorem text (marks : Marks done head new) : new.text = head.text :=
  (congrArg NodeHead.text marks.same :)

theorem concerns_iff (marks : Marks done head new) :
    search.headEdit.concerns new = true ↔ search.Seeks head ∧ search ∉ done := by
  simp only [headEdit, Bool.and_eq_true, decide_eq_true_eq, marks.kind, marks.text, marks.markers]
  refine and_congr_right fun seeks => not_congr ⟨?_, fun isDone => ⟨search, isDone, seeks, rfl⟩⟩
  rintro ⟨other, isDone, alike, same⟩
  exact eq_of_marker seeks alike same.symm ▸ isDone

theorem step (marks : Marks done head new) (search : FindIdentifier) :
    Marks (done ++ [search]) head { search.headEdit.head new with origin := none } := by
  rw [HeadEdit.head]
  split
  next concerned =>
    have seeks := (marks.concerns_iff.1 concerned).1
    have fresh : search.marker ∉ new.markers := by
      simp only [headEdit, Bool.and_eq_true, decide_eq_true_eq] at concerned
      exact concerned.2
    refine ⟨marks.same, ?_, fun marker => ?_⟩
    · show (Marker.addTo new.markers search.marker).Nodup
      rw [Marker.addTo, if_neg fresh]
      exact List.nodup_append_comm.1 (List.nodup_cons.2 ⟨fresh, marks.once⟩)
    · show marker ∈ Marker.addTo new.markers search.marker ↔ _
      rw [Marker.mem_addTo, marks.markers]
      simp [or_and_right, exists_or, seeks, eq_comm]
  next spared =>
    refine ⟨marks.same, marks.once, fun marker => ?_⟩
    show marker ∈ new.markers ↔ _
    rw [marks.markers]
    constructor
    · rintro ⟨other, isDone, alike⟩
      exact ⟨other, List.mem_append_left _ isDone, alike⟩
    · rintro ⟨other, member, alike⟩
      rcases List.mem_append.1 member with isDone | isLast
      · exact ⟨other, isDone, alike⟩
      · obtain rfl := List.mem_singleton.1 isLast
        by_contra missing
        exact spared (marks.concerns_iff.2 ⟨alike.1, fun isDone => missing ⟨_, isDone, alike⟩⟩)

end Marks

/-! ## Trees -/

/-- The tree when searches have gone through it one after the other. -/
def searched (searches : List FindIdentifier) (tree : Node) : Node :=
  searches.foldl (fun tree search => search.headEdit.edited tree) tree

theorem searched_concat (tree : Node) :
    searched (done ++ [search]) tree = search.headEdit.edited (searched done tree) :=
  List.foldl_append ..

theorem preorder_searched (searches : List FindIdentifier) (tree : Node) :
    (searched searches tree).preorder = tree.preorder.map (searched searches) := by
  induction searches using List.reverseRecOn with
  | nil => exact (List.map_id' _).symm
  | append_singleton done search induction =>
      rw [searched_concat, HeadEdit.preorder_edited, induction, List.map_map]
      exact List.map_congr_left fun part _ => (searched_concat part).symm

theorem descendant?_searched (searches : List FindIdentifier) (tree : Node) (path : List Nat) :
    (searched searches tree).descendant? path =
      (tree.descendant? path).map (searched searches) := by
  induction searches using List.reverseRecOn with
  | nil => exact Option.map_id'.symm
  | append_singleton done search induction =>
      rw [searched_concat, HeadEdit.descendant?_edited, induction, Option.map_map]
      exact congrArg (fun view => Option.map view _)
        (funext fun part => (searched_concat part).symm)

theorem marks_searched (searches : List FindIdentifier) {part : Node} (bare : part.markers = []) :
    Marks searches part.toNodeHead (searched searches part).toNodeHead := by
  suffices marks : Marks searches part.toNodeHead
      { (searched searches part).toNodeHead with origin := none } from
    ⟨marks.same, marks.once, marks.markers⟩
  induction searches using List.reverseRecOn with
  | nil => exact .refl bare
  | append_singleton done search induction =>
      have step := induction.step search
      have blind (head : NodeHead) : ({ search.headEdit.head { head with origin := none } with
          origin := none } : NodeHead) = { search.headEdit.head head with origin := none } := by
        rw [HeadEdit.head, HeadEdit.head,
          show search.headEdit.concerns { head with origin := none } = search.headEdit.concerns head
            from rfl]
        split <;> rfl
      rwa [blind, ← HeadEdit.toNodeHead_edited, ← searched_concat] at step

section

variable {file : Node} (bare : file.Everywhere fun part => part.markers = [])

include bare

theorem touches_searched_iff : search.headEdit.touches (searched done file) = true ↔
    search ∉ done ∧ ∃ part ∈ file.preorder, search.Seeks part.toNodeHead := by
  simp only [HeadEdit.touches, preorder_searched, List.any_map, List.any_eq_true, Function.comp]
  constructor
  · rintro ⟨part, inside, concerned⟩
    rcases (marks_searched done (bare part inside)).concerns_iff.1 concerned with ⟨seeks, fresh⟩
    exact ⟨fresh, part, inside, seeks⟩
  · rintro ⟨fresh, part, inside, seeks⟩
    exact ⟨part, inside, (marks_searched done (bare part inside)).concerns_iff.2 ⟨seeks, fresh⟩⟩

end

/-! ## Files -/

theorem forgets (search : FindIdentifier) (head : NodeHead) :
    search.headEdit.change head = { search.headEdit.change head with origin := none } := rfl

theorem reachable_searched (searches : List FindIdentifier) {tree : Node}
    (reachable : Reachable tree) :
    Reachable (searched searches tree) := by
  induction searches using List.reverseRecOn with
  | nil => exact reachable
  | append_singleton done search induction =>
      rw [searched_concat]
      exact HeadEdit.reachable_edited search.decides search.builds search.forgets induction

theorem mapHeads_searched (searches : List FindIdentifier) (tree : Node) :
    (searched searches tree).mapHeads unmarkedHead = tree.mapHeads unmarkedHead := by
  induction searches using List.reverseRecOn with
  | nil => rfl
  | append_singleton done search induction =>
      have edited := congrArg (mapHeads fun head => { head with markers := [] })
        (@HeadEdit.withoutOrigins_edited search.headEdit (searched done tree))
      rw [withoutOrigins, mapHeads_mapHeads, mapHeads_mapHeads] at edited
      rw [searched_concat, ← induction]
      refine edited.trans (congrArg (fun change => mapHeads change _) (funext fun head => ?_))
      rw [Function.comp, HeadEdit.head]
      split <;> rfl

theorem edited_renumber (search : FindIdentifier) (numbering : NodeId → NodeId) (tree : Node) :
    search.headEdit.edited (tree.renumber numbering) =
      (search.headEdit.edited tree).renumber numbering := by
  have concerned (head : NodeHead) :
      search.headEdit.concerns { head with id := numbering head.id } =
      search.headEdit.concerns head := rfl
  have touched (tree : Node) : search.headEdit.touches (tree.renumber numbering) =
      search.headEdit.touches tree := by
    induction tree using Node.induction with
    | step tree induction =>
        have below : (∃ child ∈ tree.children.map (renumber numbering),
            search.headEdit.touches child = true) ↔
            ∃ child ∈ tree.children, search.headEdit.touches child = true := by
          simp only [List.mem_map, exists_exists_and_eq_and]
          exact exists_congr fun child => and_congr_right fun member => by
            rw [induction child member]
        rw [Bool.eq_iff_iff, HeadEdit.touches_iff, HeadEdit.touches_iff, children_renumber, below,
          renumber_eq, concerned]
  induction tree using Node.induction with
  | step tree induction =>
      rw [HeadEdit.edited_eq, HeadEdit.edited_eq _ tree, touched]
      split
      · rw [renumber_mk, children_renumber, List.map_map, List.map_map, Node.mk.injEq]
        refine ⟨?_, List.map_congr_left induction⟩
        rw [renumber_eq, HeadEdit.head, HeadEdit.head, concerned]
        split <;> rfl
      · rfl

theorem searched_renumber (searches : List FindIdentifier) (numbering : NodeId → NodeId)
    (tree : Node) :
    searched searches (tree.renumber numbering) = (searched searches tree).renumber numbering := by
  induction searches using List.reverseRecOn with
  | nil => rfl
  | append_singleton done search induction =>
      rw [searched_concat, searched_concat, induction, edited_renumber]

theorem print_searched (searches : List FindIdentifier) {text : String} {read tree : Node}
    (parsed : Java.parse text = .ok read) (numbered : tree.withoutIds = read.withoutIds) :
    (searched searches tree).print = .ok text := by
  have faithful : (searched searches tree).Everywhere Faithful := by
    have same : (searched searches tree).withoutIds = (searched searches read).withoutIds := by
      have unnumbered := searched_renumber searches fun _ => .unnumbered
      exact (unnumbered tree).symm.trans ((congrArg _ numbered).trans (unnumbered read))
    refine everywhere_faithful_of_withoutIds_eq same ?_
    exact (reachable_searched searches (.java parsed)).everywhere_faithful fun _ absent =>
      absent.elim
  have content : tree.content = read.content := by
    rw [← content_withoutIds, numbered, content_withoutIds]
  have same := mapHeads_searched searches tree
  have explicit : (searched searches tree).Everywhere Explicit := by
    have blind := @everywhere_explicit_mapHeads unmarkedHead fun _ => ⟨rfl, rfl, rfl⟩
    rw [← blind, same, blind]
    exact everywhere_explicit_of_content content (Java.explicit_of_parse parsed)
  have written : (searched searches tree).written = text := by
    have blind := @written_mapHeads unmarkedHead fun _ => ⟨rfl, rfl, rfl⟩
    rw [← blind, same, blind, ← written_content, content, written_content]
    exact (Java.parse_readFrom parsed).written
  rw [← written]
  exact (prints_of_content faithful explicit rfl).1

/-! ## Runs -/

theorem shows {head : NodeHead} (concerned : search.headEdit.concerns head = true) :
    headContent (search.headEdit.change head) ≠ headContent head := by
  intro same
  simp only [headEdit, Bool.and_eq_true, decide_eq_true_eq] at concerned
  refine concerned.2 ((congrArg NodeHead.markers same : Marker.addTo head.markers search.marker =
    head.markers) ▸ (Marker.mem_addTo ..).2 (.inr rfl))

variable {limits : WalkLimits} (time : limits.expired = false) {session : Session}
  (going : session.cancelled = false)

include time going

theorem walks_searches (searches : List FindIdentifier) (tree : Node) :
    ∃ steps after, Walks limits (searches.map visitor) tree session steps (searched searches tree)
      after := by
  induction searches generalizing tree session with
  | nil => exact ⟨[], session, .nil tree session⟩
  | cons search rest induction =>
      have walked := HeadEdit.walk_edits search.decides search.forgets time tree going
      rcases @induction { session with board := .empty } going
        (search.headEdit.edited tree) with ⟨steps, after, walks⟩
      exact ⟨_, after, .cons walked (by rwa [HeadEdit.getD_edited])⟩

theorem applyVisitor_search (recipe : Recipe) (search : FindIdentifier) (tree : Node) :
    (recipe.applyVisitor limits search.visitor tree).run.run session =
      (.ok (if search.headEdit.touches tree then some (search.headEdit.edited tree) else none),
        { session with board := .empty }) := by
  refine Recipe.applyVisitor_eq_ok.2
    ⟨_, HeadEdit.walk_edits search.decides search.forgets time tree going, ?_⟩
  cases touched : search.headEdit.touches tree with
  | false => rfl
  | true =>
      rw [if_pos rfl, Option.filter, HeadEdit.contentEq_edited (fun _ => shows) touched]
      rfl

variable {file : Node} (bare : file.Everywhere fun part => part.markers = [])

include bare

/-- A round of searches over a tree that others have gone through. It counts as a change if one
of them is new and finds something. -/
theorem cycle_searches (recipe : Recipe) (done rest : List FindIdentifier) :
    ∃ changed after,
      (recipe.cycle limits (rest.map visitor) (searched done file)).run.run session =
        (.ok changed, after) ∧
      after.cancelled = false ∧ changed.getD (searched done file) = searched (done ++ rest) file ∧
      (changed.isSome = true ↔ ∃ search ∈ rest, search ∉ done ∧
        ∃ part ∈ file.preorder, search.Seeks part.toNodeHead) := by
  induction rest generalizing done session with
  | nil => exact ⟨none, session, rfl, going, by rw [List.append_nil]; rfl, by simp⟩
  | cons search rest induction =>
      have applied := applyVisitor_search time going recipe search (searched done file)
      have left := @HeadEdit.getD_edited search.headEdit (searched done file)
      have finds : (if search.headEdit.touches (searched done file) then
            some (search.headEdit.edited (searched done file)) else none).isSome = true ↔
          search ∉ done ∧ ∃ part ∈ file.preorder, search.Seeks part.toNodeHead := by
        rw [← touches_searched_iff bare]
        cases search.headEdit.touches (searched done file) <;> simp
      generalize (if search.headEdit.touches (searched done file) then
        some (search.headEdit.edited (searched done file)) else none) = first at applied left finds
      rcases @induction { session with board := .empty } going (done ++ [search]) with
        ⟨rests, after, cycled, still, getD, some⟩
      rw [searched_concat, ← left] at cycled getD
      refine ⟨rests <|> first, after, ?_, still, ?_, ?_⟩
      · exact Recipe.bind_eq_ok.2
          ⟨first, _, applied, Recipe.bind_eq_ok.2 ⟨rests, after, cycled, rfl⟩⟩
      · rw [List.append_cons, ← getD]
        cases rests <;> rfl
      · have either : (rests <|> first).isSome = true ↔ rests.isSome = true ∨
            first.isSome = true := by
          cases rests <;> simp
        rw [either, some, finds, List.exists_mem_cons_iff, or_comm]
        refine or_congr_right' fun missed => exists_congr fun other => and_congr_right fun _ => ?_
        rw [List.mem_append, List.mem_singleton, not_or, and_assoc]
        refine and_congr_right fun fresh => and_iff_right_of_imp fun found same => ?_
        exact missed ⟨same ▸ fresh, same ▸ found⟩

/-- A recipe of searches leaves the tree through which each of them has gone, however often it goes
round. -/
theorem run_searches (name : String) (searches : List FindIdentifier) (iteration : Iteration) :
    ∃ result, Recipe.run ⟨name, searches.map visitor, iteration⟩ limits session file = .ok result ∧
      result.tree = searched searches file ∧
      (result.changed = true ↔ ∃ search ∈ searches,
        ∃ part ∈ file.preorder, search.Seeks part.toNodeHead) := by
  let recipe : Recipe := ⟨name, searches.map visitor, iteration⟩
  suffices ran : ∃ result after, (recipe.runFrom limits file).run.run session =
      (.ok result, after) ∧
      result.tree = searched searches file ∧ (result.changed = true ↔ ∃ search ∈ searches,
        ∃ part ∈ file.preorder, search.Seeks part.toNodeHead) by
    rcases ran with ⟨result, after, ran, facts⟩
    exact ⟨result, congrArg Prod.fst ran, facts⟩
  rcases recipe.iteration.exists_maxCycles_eq with ⟨left, cycles⟩
  rcases cycle_searches time going bare recipe [] searches with
    ⟨changed, middle, cycled, still, getD, finds⟩
  simp only [List.not_mem_nil, not_false_eq_true, true_and] at finds
  rw [Recipe.runFrom, cycles, Recipe.repeatCycle, ← finds]
  cases changed with
  | none =>
      exact ⟨⟨file, false, 1, true⟩, middle, Recipe.bind_eq_ok.2 ⟨none, middle, cycled, rfl⟩, getD,
      by simp⟩
  | some new =>
      obtain rfl : new = searched searches file := getD
      cases left with
      | zero => exact ⟨⟨searched searches file, true, 1, _⟩, middle,
          Recipe.bind_eq_ok.2 ⟨some _, middle, cycled, rfl⟩, rfl, by simp⟩
      | succ left =>
          -- no search is new in the second round
          rcases cycle_searches time still bare recipe searches searches with
            ⟨again, after, cycledAgain, -, -, nothing⟩
          obtain rfl : again = none := Option.not_isSome_iff_eq_none.1 fun some => by
            rcases nothing.1 some with ⟨search, member, fresh, -⟩
            exact fresh member
          refine ⟨⟨searched searches file, true, 2, true⟩, after,
            Recipe.bind_eq_ok.2 ⟨some _, middle, cycled, ?_⟩, rfl, by simp⟩
          show (recipe.repeatCycle limits (left + 1) 1 true _).run.run middle = _
          rw [Recipe.repeatCycle]
          exact Recipe.bind_eq_ok.2 ⟨none, after, cycledAgain, rfl⟩

end FindIdentifier

end Verbatim
