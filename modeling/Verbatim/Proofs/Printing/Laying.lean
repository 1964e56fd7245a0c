import Verbatim.Proofs.Printing.Contents

/-! Printing made nodes. A node whose formatting is left to the layout is printed as if that
formatting had been written out; so what is printed of a tree is the text of the parts of
another one, that leaves nothing to the layout. -/

namespace Verbatim

open Node

namespace Node

theorem content_content (node : Node) : node.content.content = node.content := by
  rw [content_eq_mapHeads, content_eq_mapHeads, mapHeads_mapHeads]
  rfl

@[simp] theorem written_content (node : Node) : node.content.written = node.written := by
  rw [content_eq_mapHeads]
  apply written_mapHeads
  exact fun _ => ⟨rfl, rfl, rfl⟩

theorem faithful_of_content {node : Node} (same : node.content = node) :
    node.Everywhere Faithful := by
  have anything : node.Everywhere fun _ => True := fun _ _ => trivial
  rw [← same, content_eq_mapHeads]
  exact anything.mapHeads fun part _ =>
    aboutOrigins_faithful _ (congrArg NodeHead.origin (toNodeHead_mapHeads part))

end Node

namespace Printer

@[simp] theorem Page.put_put (page : Page) (text more : String) :
    (page.put text).put more = page.put (text ++ more) := by
  rw [Page.put, Page.put, Page.put, String.append_assoc]

def LaysOut (page : Page) (place : Option Layout.Place) (node laid : Node) : Prop :=
  printHead false page place node.toNodeHead node.children = .ok (laid, page.put laid.written)

def LayOutAll (page : Page) (parent : Kind) (before nodes laid : List Node) : Prop :=
  printChildren false page parent before nodes = .ok (laid, page.put (writtenOfAll laid))

variable {page : Page} {place : Option Layout.Place} {parent : Kind} {before : List Node}

/-! ## Node by node -/

theorem LaysOut.of_explicit {node : Node} (explicit : node.Everywhere Explicit) :
    LaysOut page place node.content node.content := by
  rw [LaysOut, printHead_explicit _ _ _ (everywhere_explicit_content explicit), shown_content,
    written_content]
  rfl

theorem LaysOut.of_layout {node laid : Node} {leading : String} (made : node.leading = none)
    (unread : node.origin = none)
    (decided : Layout.leading node place page.blockIndent = .ok leading)
    (laysOut : LaysOut page place (node.withLeading (.ofWhitespace leading)) laid) :
    LaysOut page place node laid := by
  rcases node with ⟨⟨id, kind, _, text, trailing, markers, _⟩, children⟩
  cases made
  cases unread
  rw [LaysOut, printHead] at laysOut ⊢
  simp only [leadingOf, decided, withLeading, bind, Except.bind, pure, Except.pure] at laysOut ⊢
  exact laysOut

/-- Where children begin: behind the formatting of their parent, on the page of a block of its
own if the parent is one. -/
def Page.inside (page : Page) (kind : Kind) (leading : Trivia) : Page :=
  if kind = .block then (page.put leading.text).openBlock else page.put leading.text

theorem LaysOut.of_children {head : NodeHead} {leading : Trivia} {children laid : List Node}
    (isLeading : head.leading = some leading) (unread : head.origin = none)
    (noText : head.text = none) (trailing_ : head.trailing = .empty) (some : children ≠ [])
    (inside : LayOutAll (page.inside head.kind leading) head.kind [] children laid) :
    LaysOut page place ⟨head, children⟩ ⟨head, laid⟩ := by
  rcases head with ⟨id, kind, _, _, trailing, markers, _⟩
  cases isLeading
  cases unread
  cases noText
  have nothingBehind : trailing.text = "" := by rw [show trailing = .empty from trailing_]; rfl
  have spelled : lacksText ⟨id, kind, Option.some leading, none, trailing, markers, none⟩ children =
      false := by
    cases children with
    | nil => exact absurd rfl some
    | cons first rest => simp [lacksText]
  rw [LayOutAll, Page.inside] at inside
  rw [LaysOut, printHead, written, nothingBehind]
  by_cases isBlock : kind = .block
  · simp only [isBlock, if_true, Page.put, Page.openBlock] at inside spelled
    simp [leadingOf, spelled, inside, isBlock, bind, Except.bind, pure, Except.pure, Page.put,
      Page.openBlock, Page.closeBlock, String.append_assoc]
  · simp only [if_neg isBlock, Page.put] at inside
    simp [leadingOf, spelled, inside, isBlock, bind, Except.bind, pure, Except.pure, Page.put,
      String.append_assoc]

/-! ## Children -/

theorem LayOutAll.nil : LayOutAll page parent before [] [] := by
  simp [LayOutAll, printChildren, writtenOfAll, Page.put]

theorem LayOutAll.cons {node first : Node} {rest laid : List Node}
    (here : LaysOut page (some ⟨parent, before⟩) (settleBrace parent before page node) first)
    (there : LayOutAll (page.put first.written) parent (node :: before) rest laid) :
    LayOutAll page parent before (node :: rest) (first :: laid) := by
  have children : (settleBrace parent before page node).children = node.children := by
    rw [settleBrace]
    split <;> rfl
  rw [LaysOut, children] at here
  rw [LayOutAll] at there ⊢
  rcases node with ⟨head, children⟩
  rw [printChildren, here]
  simp only [bind, Except.bind, pure, Except.pure, there, Page.put_put, writtenOfAll]

theorem LayOutAll.cons_of_formatted {node first : Node} {rest laid : List Node}
    (settled : parent = .block → ∀ sibling ∈ before, sibling.Formatted)
    (here : LaysOut page (some ⟨parent, before⟩) node first)
    (there : LayOutAll (page.put first.written) parent (node :: before) rest laid) :
    LayOutAll page parent before (node :: rest) (first :: laid) := by
  refine .cons ?_ there
  by_cases isBlock : parent = .block
  · rwa [settleBrace_of_formatted (settled isBlock)]
  · rwa [settleBrace, if_neg (by simp [isBlock])]

theorem LayOutAll.cons_of_ne {node first : Node} {rest laid : List Node} (noBlock : parent ≠ .block)
    (here : LaysOut page (some ⟨parent, before⟩) node first)
    (there : LayOutAll (page.put first.written) parent (node :: before) rest laid) :
    LayOutAll page parent before (node :: rest) (first :: laid) :=
  .cons_of_formatted (fun isBlock => absurd isBlock noBlock) here there

/-! ## Made nodes -/

theorem LaysOut.token {kind : Kind} {text leading : String}
    (decided : Layout.leading (Node.token kind text) place page.blockIndent = .ok leading) :
    LaysOut page place (Node.token kind text)
      ((Node.token kind text).withLeading (.ofWhitespace leading)) := by
  have explicit : ((Node.token kind text).withLeading (.ofWhitespace leading)).Everywhere
      Explicit := by
    refine everywhere_iff.2 ⟨⟨?_, fun _ _ => rfl⟩, fun _ absent => absurd absent List.not_mem_nil⟩
    exact (rfl : Option.isSome (some _) = true)
  exact .of_layout rfl rfl decided (.of_explicit explicit)

theorem LaysOut.branch {kind : Kind} {children laid : List Node} {leading : String}
    (decided : Layout.leading (Node.branch kind children) place page.blockIndent = .ok leading)
    (some : children ≠ [])
    (inside : LayOutAll (page.inside kind (.ofWhitespace leading)) kind [] children laid) :
    LaysOut page place (Node.branch kind children)
      ((Node.branch kind laid).withLeading (.ofWhitespace leading)) :=
  .of_layout rfl rfl decided (.of_children rfl rfl rfl rfl some inside)

/-! ## Among other nodes -/

theorem LayOutAll.explicit_append {front back laid : List Node}
    (explicit : ∀ node ∈ front, node.Everywhere Explicit)
    (settled : parent = .block → ∀ sibling ∈ before, sibling.Formatted)
    (there : LayOutAll (page.put (writtenOfAll front)) parent
      ((front.map content).reverse ++ before)
      back laid) :
    LayOutAll page parent before (front.map content ++ back) (front.map content ++ laid) := by
  induction front generalizing page before with
  | nil => simpa [writtenOfAll, Page.put] using there
  | cons node rest induction =>
      rw [List.forall_mem_cons] at explicit
      have formatted := (everywhere_explicit_content explicit.1).here.formatted
      refine .cons_of_formatted settled (.of_explicit explicit.1) (induction explicit.2
        (fun isBlock => List.forall_mem_cons.2 ⟨formatted, settled isBlock⟩) ?_)
      rw [written_content, Page.put_put]
      simpa [writtenOfAll] using there

theorem LayOutAll.of_explicit {nodes : List Node}
    (explicit : ∀ node ∈ nodes, node.Everywhere Explicit)
    (settled : parent = .block → ∀ sibling ∈ before, sibling.Formatted) :
    LayOutAll page parent before (nodes.map content) (nodes.map content) := by
  have laid := @LayOutAll.explicit_append page parent before nodes [] [] explicit settled .nil
  rwa [List.append_nil] at laid

end Printer

theorem Node.prints_of_laysOut {node laid : Node} (faithful : node.Everywhere Faithful)
    (laysOut : Printer.LaysOut ⟨"", []⟩ none node.content laid) :
    node.print = .ok laid.written ∧
      ∃ resolved, node.resolveFormatting = .ok resolved ∧
        resolved.content = laid.hoist.content := by
  have layouts := Printer.layOut_content faithful
  rw [Printer.layOut, laysOut] at layouts
  cases laidOut : Printer.layOut false node with
  | error error =>
      rw [laidOut] at layouts
      cases layouts
  | ok pair =>
      rcases pair with ⟨resolved, text⟩
      rw [laidOut] at layouts
      simp only [bind, Except.bind, pure, Except.pure, Printer.Page.put,
        seenOutcome, Except.ok.injEq, Prod.mk.injEq, String.empty_append] at layouts
      rcases layouts with ⟨rfl, rfl⟩
      refine ⟨?_, resolved.hoist, ?_, ?_⟩
      · rw [print, laidOut]
        rfl
      · rw [resolveFormatting, laidOut]
        rfl
      · rw [← content_hoist, content_content]

theorem Node.prints_of_content {node other : Node} (faithful : node.Everywhere Faithful)
    (explicit : other.Everywhere Explicit) (same : node.content = other.content) :
    node.print = .ok other.written ∧
      ∃ resolved, node.resolveFormatting = .ok resolved ∧
        resolved.content = other.hoist.content := by
  have printed := prints_of_laysOut faithful (same ▸ Printer.LaysOut.of_explicit explicit)
  rwa [same, written_content, content_hoist, content_content, ← content_hoist] at printed

end Verbatim
