import Verbatim.Printing.Printer

/-! Siblings looked up by their numbers. A layout that knows a node by its parent and by its number
among the children there has to look the siblings up in the list of children, and a number outside
that list would leave it without an answer. Printing with such lookups never comes to such a number,
and is printing with the list of the siblings in front. -/

namespace Verbatim

/-- An outcome of printing, or nothing at all after a lookup outside a list of children. -/
abbrev Lookup (α : Type) : Type := ExceptT PrintError Option α

namespace Lookup

/-- An outcome without any lookup outside a list. -/
def found {α : Type} (outcome : Except PrintError α) : Lookup α := ExceptT.mk (some outcome)

theorem found_bind {α β : Type} {first : Except PrintError α} {next : α → Lookup β}
    {other : α → Except PrintError β} (same : ∀ value, next value = found (other value)) :
    found first >>= next = found (first >>= other) := by
  rw [funext same]
  cases first <;> rfl

theorem found_ok_bind {α β : Type} (value : α) (next : α → Lookup β) :
    found (.ok value) >>= next = next value := rfl

def ofList (nodes : List Node) (number : Nat) : Lookup Node := ExceptT.lift nodes[number]?

theorem ofList_of_getElem? {nodes : List Node} {number : Nat} {node : Node}
    (isNode : nodes[number]? = some node) : ofList nodes number = found (.ok node) := by
  rw [ofList, isNode]
  rfl

/-- The nodes in front of a number, nearest first. The number may be that of the end of the list. -/
def before (nodes : List Node) (number : Nat) : Lookup (List Node) :=
  if number ≤ nodes.length then found (.ok (nodes.take number).reverse) else ExceptT.mk none

theorem before_of_le {nodes : List Node} {number : Nat} (inside : number ≤ nodes.length) :
    before nodes number = found (.ok (nodes.take number).reverse) :=
  if_pos inside

end Lookup

open Lookup

namespace Layout

/-- The formatting in front of the child with a number that is not zero. -/
def behindSibling (node parent : Node) (number : Nat) (blockIndent : String) : Lookup String := do
  let previous ← ofList parent.children (number - 1)
  match parent.kind with
  | .qualifiedName => found (.ok "")
  | .sourceFile => found (.ok (topLevel node previous))
  | .block =>
    let siblings ← before parent.children number
    found (.ok (blockMember node previous siblings blockIndent))
  | _ => found (.ok (inline node previous))

/-- The formatting in front of the child with a given number, without a parent that of the root. -/
def leadingNumbered (node : Node) (parent : Option Node) (number : Nat) (blockIndent : String) :
    Lookup String :=
  match node.kind with
  | .custom custom =>
    match custom.defaultLeading with
    | none => found (.error (.missingFormatting node.kind node.id))
    | some text => found (.ok (if parent.isNone || number == 0 then "" else text))
  | _ =>
    match parent with
    | none => found (.ok "")
    | some parent =>
      if number = 0 then found (.ok "") else behindSibling node parent number blockIndent

def Place.ofNumber (parent : Node) (number : Nat) : Place :=
  ⟨parent.kind, (parent.children.take number).reverse⟩

theorem exists_previous {parent : Node} {number : Nat} (inside : number < parent.children.length)
    (notFirst : number ≠ 0) :
    ∃ previous, parent.children[number - 1]? = some previous ∧
      (parent.children.take number).reverse.head? = some previous := by
  have isPrevious := List.getElem?_eq_getElem (Nat.lt_of_le_of_lt (Nat.sub_le number 1) inside)
  refine ⟨_, isPrevious, ?_⟩
  rw [List.head?_reverse, List.getLast?_take, if_neg notFirst, isPrevious, Option.some_or]

theorem behindSibling_eq (node : Node) {parent previous : Node} {number : Nat}
    (inside : number ≤ parent.children.length)
    (isPrevious : parent.children[number - 1]? = some previous) (blockIndent : String) :
    behindSibling node parent number blockIndent =
      found (.ok (match parent.kind with
        | .qualifiedName => ""
        | .sourceFile => topLevel node previous
        | .block => blockMember node previous (parent.children.take number).reverse blockIndent
        | _ => inline node previous)) := by
  rw [behindSibling, ofList_of_getElem? isPrevious, before_of_le inside]
  cases parent.kind <;> rfl

theorem leadingNumbered_eq (node : Node) {parent : Option Node} {number : Nat}
    (inside : ∀ given ∈ parent, number < given.children.length) (blockIndent : String) :
    leadingNumbered node parent number blockIndent =
      found (leading node (parent.map (Place.ofNumber · number)) blockIndent) := by
  cases parent with
  | none =>
      rw [leadingNumbered, leading]
      rcases node with ⟨⟨_, kind, _⟩, _⟩
      cases kind with
      | custom custom => rcases custom with ⟨_, _, _ | text⟩ <;> rfl
      | _ => rfl
  | some parent =>
      have within := inside parent rfl
      by_cases first : number = 0
      · subst first
        rw [leadingNumbered, leading]
        rcases node with ⟨⟨_, kind, _⟩, _⟩
        cases kind with
        | custom custom => rcases custom with ⟨_, _, _ | text⟩ <;> rfl
        | _ => rfl
      · rcases exists_previous within first with ⟨previous, isPrevious, isFirst⟩
        rw [leadingNumbered, leading]
        simp only [Option.map_some, Option.bind_some, Place.ofNumber, isFirst,
          behindSibling_eq node (Nat.le_of_lt within) isPrevious, if_neg first]
        rcases node with ⟨⟨_, kind, _⟩, _⟩
        cases kind with
        | custom custom => rcases custom with ⟨_, _, _ | text⟩ <;> simp [first]
        | _ => rfl

end Layout

namespace Printer

open Layout

def leadingOfNumbered (head : NodeHead) (children : List Node) (parent : Option Node)
    (number : Nat) (page : Page) : Lookup Trivia :=
  match head.leading with
  | some leading => found (.ok leading)
  | none => do
    return .ofWhitespace (← leadingNumbered ⟨head, children⟩ parent number page.blockIndent)

mutual

/-- Print the child with a given number. -/
def printNumbered (showMarkers : Bool) (page : Page) (parent : Option Node) (number : Nat)
    (head : NodeHead) : List Node → Lookup (Node × Page)
  | children =>
    match head.origin with
    | some origin => found (.ok (⟨head, children⟩, page.put origin.text))
    | none => do
      let leading ← leadingOfNumbered head children parent number page
      let page := page.put leading.text
      let page := if showMarkers then page.put (markerComments head.markers) else page
      if lacksText head children then found (.error (.missingText head.kind head.id))
      else
        let page := page.put (head.text.getD "")
        let isBlock := head.kind = .block
        let page := if isBlock then page.openBlock else page
        let (resolved, page) ← printNumberedFrom showMarkers page ⟨head, children⟩ 0 children
        let page := if isBlock then page.closeBlock else page
        let page := page.put head.trailing.text
        return (⟨{ head with leading := some leading }, resolved⟩, page)

/-- Print the children from a given number on. -/
def printNumberedFrom (showMarkers : Bool) (page : Page) (parent : Node) (number : Nat) :
    List Node → Lookup (List Node × Page)
  | [] => found (.ok ([], page))
  | ⟨head, children⟩ :: rest => do
    let siblings ← before parent.children number
    let settled := settleBrace parent.kind siblings page ⟨head, children⟩
    let (node, page) ←
      printNumbered showMarkers page (some parent) number settled.toNodeHead children
    let (rest, page) ← printNumberedFrom showMarkers page parent (number + 1) rest
    return (node :: rest, page)

end

def layOutNumbered (showMarkers : Bool) (root : Node) : Lookup (Node × String) := do
  let (resolved, page) ← printNumbered showMarkers ⟨"", []⟩ none 0 root.toNodeHead root.children
  return (resolved, page.text)

theorem leadingOfNumbered_eq (head : NodeHead) (children : List Node) {parent : Option Node}
    {number : Nat} (inside : ∀ given ∈ parent, number < given.children.length) (page : Page) :
    leadingOfNumbered head children parent number page =
      found (leadingOf head children (parent.map (Place.ofNumber · number)) page) := by
  rw [leadingOfNumbered, leadingOf]
  cases head.leading with
  | some leading => rfl
  | none =>
      simp only [leadingNumbered_eq _ inside]
      exact found_bind fun _ => rfl

mutual

theorem printNumbered_eq (showMarkers : Bool) : ∀ (children : List Node) (head : NodeHead)
    (page : Page) (parent : Option Node) (number : Nat),
    (∀ given ∈ parent, number < given.children.length) →
    printNumbered showMarkers page parent number head children =
      found (printHead showMarkers page (parent.map (Place.ofNumber · number)) head children)
  | children, head, page, parent, number, inside => by
      rw [printNumbered, printHead]
      cases head.origin with
      | some origin => rfl
      | none =>
          simp only [leadingOfNumbered_eq head children inside]
          apply found_bind
          intro leading
          split
          · rfl
          · have below (page : Page) :
                printNumberedFrom showMarkers page ⟨head, children⟩ 0 children =
                  found (printChildren showMarkers page head.kind [] children) :=
              printNumberedFrom_eq showMarkers children page ⟨head, children⟩ 0 rfl
            simp only [below]
            exact found_bind fun _ => rfl

theorem printNumberedFrom_eq (showMarkers : Bool) : ∀ (nodes : List Node) (page : Page)
    (parent : Node) (number : Nat), parent.children.drop number = nodes →
    printNumberedFrom showMarkers page parent number nodes =
      found (printChildren showMarkers page parent.kind
        (parent.children.take number).reverse nodes)
  | [], page, parent, number, _ => by rw [printNumberedFrom, printChildren]
  | ⟨head, children⟩ :: rest, page, parent, number, split => by
      have inside : number < parent.children.length := by
        have := congrArg List.length split
        rw [List.length_drop, List.length_cons] at this
        omega
      have next : (parent.children.take (number + 1)).reverse =
          ⟨head, children⟩ :: (parent.children.take number).reverse := by
        have here := List.getElem_cons_drop inside
        rw [split, List.cons.injEq] at here
        rw [List.take_add_one, List.getElem?_eq_getElem inside, here.1]
        simp
      have left : parent.children.drop (number + 1) = rest := by
        rw [← List.tail_drop, split, List.tail_cons]
      have others (page : Page) :=
        printNumberedFrom_eq showMarkers rest page parent (number + 1) left
      rw [printNumberedFrom, printChildren, before_of_le (Nat.le_of_lt inside)]
      have settled : ∀ head, printNumbered showMarkers page (some parent) number head children =
          found (printHead showMarkers page (some (Place.ofNumber parent number)) head children) :=
        fun head => printNumbered_eq showMarkers children head page (some parent) number
          (fun given member => by cases member; exact inside)
      rw [next] at others
      rw [found_ok_bind]
      simp only [settled]
      apply found_bind
      rintro ⟨node, page⟩
      rw [others]
      exact found_bind fun _ => rfl

end

theorem layOutNumbered_eq (showMarkers : Bool) (root : Node) :
    layOutNumbered showMarkers root = found (layOut showMarkers root) := by
  have printed := printNumbered_eq showMarkers root.children root.toNodeHead ⟨"", []⟩ none 0
    (fun _ member => by cases member)
  rw [layOutNumbered, layOut, printed]
  exact found_bind fun _ => rfl

end Printer

end Verbatim
