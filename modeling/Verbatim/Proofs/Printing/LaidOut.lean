import Verbatim.Proofs.Printing.Failing
import Verbatim.Proofs.Printing.Laying

/-! The tree that is laid out. Printing gives back the tree it printed with all formatting decided:
its parts are the text that was printed, and it differs from the given tree in nothing but the
formatting in front of its nodes. So it is printed the same, with nothing left to the layout. -/

namespace Verbatim

open Node

namespace Printer

/-- The nodes behind `page` are the given ones with all formatting decided, and are what was printed
on the page up to `after`. -/
structure LaidOut (page after : Page) (given laid : List Node) : Prop where
  same : laid.map unlaid = given.map unlaid
  explicit : ∀ node ∈ laid, node.Everywhere Explicit
  text : after.text = page.text ++ writtenOfAll laid

theorem unlaid_settleBrace (parent : Kind) (before : List Node) (page : Page) (node : Node) :
    (settleBrace parent before page node).unlaid = node.unlaid := by
  rw [settleBrace]
  split
  · exact mapHeads_withLeading (fun _ _ _ => rfl) node _
  · rfl

mutual

theorem printHead_laidOut : ∀ (children : List Node) {head : NodeHead} {page after : Page}
    {place : Option Layout.Place} {laid : Node}, (Node.mk head children).Everywhere Faithful →
    printHead false page place head children = .ok (laid, after) →
    LaidOut page after [⟨head, children⟩] [laid]
  | children, head, page, after, place, laid, faithful, printed => by
      rw [printHead] at printed
      cases read : head.origin with
      | some origin =>
          rw [read] at printed
          cases printed
          rcases faithful.here.explicit read with ⟨-, text, explicit⟩
          constructor
          · rfl
          · simpa using explicit
          · rw [writtenOfAll, writtenOfAll, String.append_empty, ← text]
            rfl
      | none =>
          rw [read] at printed
          simp only [exceptBind_eq_ok] at printed
          rcases printed with ⟨leading, -, printed⟩
          split at printed
          · cases printed
          next spelled =>
            simp only [exceptBind_eq_ok] at printed
            rcases printed with ⟨⟨others, _⟩, childrenPrinted, finished⟩
            cases finished
            have inside := printChildren_laidOut children
              (fun child member => faithful.child member) childrenPrinted
            constructor
            · simp only [List.map_cons, List.map_nil, unlaid_mk, inside.same]
            · simp only [List.mem_singleton, forall_eq]
              refine everywhere_iff.2 ⟨⟨rfl, ?_⟩, inside.explicit⟩
              intro isToken noChildren
              have noneLaid : others = [] := noChildren
              have noneGiven : children = [] := by
                have same := inside.same
                rw [noneLaid, List.map_nil] at same
                exact List.map_eq_nil_iff.1 same.symm
              have token : head.kind.isToken = true := isToken
              simpa [lacksText, token, noneGiven, Option.isSome_iff_ne_none] using spelled
            · have text := inside.text
              by_cases isBlock : head.kind = .block <;>
                simp only [isBlock, if_true, if_false, Bool.false_eq_true, Page.put, Page.openBlock,
                  Page.closeBlock, writtenOfAll, written, Option.getD_some, String.append_empty]
                  at text ⊢ <;>
                rw [text] <;> simp [String.append_assoc]

theorem printChildren_laidOut : ∀ (nodes : List Node) {page after : Page} {parent : Kind}
    {before laid : List Node}, (∀ node ∈ nodes, node.Everywhere Faithful) →
    printChildren false page parent before nodes = .ok (laid, after) →
    LaidOut page after nodes laid
  | [], page, after, parent, before, laid, _, printed => by
      rw [printChildren] at printed
      cases printed
      exact ⟨rfl, fun node absent => absurd absent List.not_mem_nil, by simp [writtenOfAll]⟩
  | ⟨head, children⟩ :: rest, page, after, parent, before, laid, faithful, printed => by
      rw [printChildren] at printed
      simp only [exceptBind_eq_ok] at printed
      rcases printed with ⟨⟨first, middle⟩, firstPrinted, ⟨others, last⟩, restPrinted, finished⟩
      cases finished
      rw [List.forall_mem_cons] at faithful
      have settled : (Node.mk (settleBrace parent before page ⟨head, children⟩).toNodeHead
          children).Everywhere Faithful := by
        rw [settleBrace_mk]
        exact everywhere_settleBrace aboutOrigins_faithful faithful.1
      have here := printHead_laidOut children settled firstPrinted
      have there := printChildren_laidOut rest faithful.2 restPrinted
      rw [settleBrace_mk] at here
      constructor
      · have sameHere := here.same
        simp only [List.map_cons, List.map_nil, unlaid_settleBrace] at sameHere
        rw [List.map_cons, List.map_cons, there.same, (List.cons.inj sameHere).1]
      · exact List.forall_mem_cons.2 ⟨here.explicit first (List.mem_singleton_self first),
          there.explicit⟩
      · rw [there.text, here.text]
        simp [writtenOfAll, String.append_assoc]

end

theorem layOut_laidOut {root laid : Node} {text : String} (faithful : root.Everywhere Faithful)
    (printed : layOut false root = .ok (laid, text)) :
    laid.unlaid = root.unlaid ∧ laid.Everywhere Explicit ∧ laid.written = text := by
  cases root
  rw [layOut, exceptBind_eq_ok] at printed
  rcases printed with ⟨⟨_, after⟩, nodePrinted, finished⟩
  cases finished
  have laidOut := printHead_laidOut _ faithful nodePrinted
  refine ⟨(List.cons.inj laidOut.same).1, laidOut.explicit _ (List.mem_singleton_self _), ?_⟩
  simpa [writtenOfAll] using laidOut.text.symm

end Printer

namespace Node

theorem aboutOrigins_asRead : AboutOrigins AsRead := by
  intro node gone remembers
  rw [gone] at remembers
  cases remembers

/-- Whether a token is spelled out and whether text and children exclude each other can be told
without the formatting. -/
theorem everywhere_of_unlaid_eq {node other : Node} (same : node.unlaid = other.unlaid) :
    (other.Everywhere Spelled → node.Everywhere Spelled) ∧
      (other.Everywhere TextOrChildren → node.Everywhere TextOrChildren) := by
  constructor
  · refine everywhere_of_mapHeads_eq (fun node => ?_) same
    apply spelled_mapHeads
    exact fun _ => ⟨rfl, rfl⟩
  · refine everywhere_of_mapHeads_eq (fun node => ?_) same
    rw [TextOrChildren, TextOrChildren, children_mapHeads_eq_nil_iff, toNodeHead_mapHeads]

theorem resolveFormatting_eq_ok_iff {root resolved : Node} :
    root.resolveFormatting = .ok resolved ↔
      ∃ laid text, Printer.layOut false root = .ok (laid, text) ∧ resolved = laid.hoist := by
  rw [resolveFormatting]
  cases Printer.layOut false root <;> simp [Except.map, Prod.ext_iff, eq_comm]

/-- The tree with all formatting made explicit prints what the tree prints. Making it explicit fails
where printing fails, and in the same way; it changes nothing but the formatting in front of nodes,
and leaves none of that open. -/
theorem resolveFormatting_prints_same {root : Node} (read : root.Everywhere AsRead)
    (apart : root.Everywhere TextOrChildren) :
    (∀ error, root.resolveFormatting = .error error ↔ root.print = .error error) ∧
    ∀ text, root.print = .ok text → ∃ resolved, root.resolveFormatting = .ok resolved ∧
      resolved.mapHeads (fun head => { head with leading := none, origin := none }) =
        root.mapHeads (fun head => { head with leading := none, origin := none }) ∧
      resolved.Everywhere Formatted ∧ resolved.print = .ok text := by
  have faithful := read.mono fun _ => AsRead.faithful
  constructor
  · intro error
    rw [resolveFormatting, print]
    cases Printer.layOut false root <;> simp [Except.map]
  · intro text printed
    rw [print] at printed
    cases laidOut : Printer.layOut false root with
    | error error =>
        rw [laidOut] at printed
        cases printed
    | ok pair =>
        rcases pair with ⟨laid, shown⟩
        rw [laidOut] at printed
        cases printed
        rcases Printer.layOut_laidOut faithful laidOut with ⟨same, explicit, written⟩
        have resolved : root.resolveFormatting = .ok laid.hoist :=
          resolveFormatting_eq_ok_iff.2 ⟨laid, _, laidOut, rfl⟩
        have hoistedSame : laid.hoist.unlaid = root.unlaid := (unlaid_hoist laid).trans same
        have formatted : laid.hoist.Everywhere Formatted :=
          everywhere_formatted_hoist (explicit.mono fun _ explicit => explicit.formatted)
        have spelled : laid.hoist.Everywhere Spelled :=
          (everywhere_of_unlaid_eq (unlaid_hoist laid)).1
            (explicit.mono fun _ explicit => explicit.spelled)
        have hoistedFaithful : laid.hoist.Everywhere Faithful :=
          aboutOrigins_faithful.resolveFormatting faithful resolved
        have prints := (prints_of_content hoistedFaithful
          (fun below member => ⟨formatted below member, spelled below member⟩) rfl).1
        rw [written_hoist ((everywhere_of_unlaid_eq same).2 apart), written] at prints
        exact ⟨laid.hoist, resolved, hoistedSame, formatted, prints⟩

/-- A file with a made class behind the one that was read. -/
theorem resolveFormatting_prints_made_class :
    ∃ tree resolved text, Java.parse "class A\x7b\x7d" = .ok tree ∧
      (tree.withChildren (tree.children ++ [branch .classDecl
        [token .keyword "class", token .identifier "B"]])).print = .ok text ∧
      (tree.withChildren (tree.children ++ [branch .classDecl
        [token .keyword "class", token .identifier "B"]])).resolveFormatting = .ok resolved ∧
      resolved.print = .ok text := by
  let made := branch .classDecl [token .keyword "class", token .identifier "B"]
  have evaluated : (Java.parse "class A\x7b\x7d").toOption.map (fun tree =>
      (tree.text, (tree.withChildren (tree.children ++ [made])).made.findSome? fault?)) =
      some (none, none) := by decide +kernel
  cases parsed : Java.parse "class A\x7b\x7d" with
  | error error =>
      rw [parsed] at evaluated
      cases evaluated
  | ok tree =>
      rw [parsed] at evaluated
      rcases Prod.mk.inj (Option.some.inj evaluated) with ⟨noText, sound⟩
      let root := tree.withChildren (tree.children ++ [made])
      have everywhere {property : Node → Prop} (read : tree.Everywhere property)
          (here : property root) (branches : property made)
          (tokens : ∀ kind text, property (token kind text)) : root.Everywhere property := by
        refine everywhere_iff.2 ⟨here, fun child member => ?_⟩
        rcases List.mem_append.1 member with member | member
        · exact read.child member
        · rw [List.mem_singleton.1 member]
          intro below inside
          simp only [made, branch, token, preorder, preorderOfAll, List.append_nil, List.mem_cons,
            List.mem_append, List.not_mem_nil, or_false] at inside
          rcases inside with rfl | rfl | rfl
          · exact branches
          · exact tokens _ _
          · exact tokens _ _
      have read : root.Everywhere AsRead :=
        everywhere (fun part member _ => ⟨_, tree, .inl parsed, part, member, rfl⟩)
          (aboutOrigins_asRead _ rfl) (aboutOrigins_asRead _ rfl)
          fun _ _ => aboutOrigins_asRead _ rfl
      have apart : root.Everywhere TextOrChildren := by
        apply everywhere ((Java.parse_readFrom parsed).regular.mono
          fun _ regular => regular.textOrChildren)
        · intro hasText
          rw [show root.text = none from noText] at hasText
          cases hasText
        · intro hasText
          cases hasText
        · exact fun _ _ _ => rfl
      have shares := read.mono fun _ asRead => asRead.faithful.sharesOrigin
      cases printed : root.print with
      | error error =>
          have first := Printer.of?_layOut false shares
          rw [sound, ← PrintError.of?_map Prod.snd] at first
          rw [print] at printed
          rw [printed] at first
          cases first
      | ok text =>
          rcases (resolveFormatting_prints_same read apart).2 text printed with
            ⟨resolved, succeeded, -, -, prints⟩
          exact ⟨tree, resolved, text, rfl, printed, succeeded, prints⟩

end Node

end Verbatim
