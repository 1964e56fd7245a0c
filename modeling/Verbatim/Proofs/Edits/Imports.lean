import Verbatim.Edits.AddImport
import Verbatim.Proofs.Traversal.Deciding

/-! What is made of a file when an import is added. Only the file itself is looked at. If what is to
be imported cannot be seen in it, a declaration is put between its children; and a file with this
declaration can see it. -/

namespace Verbatim

open Walk in
theorem walk_of_skipped {visitor : Visitor} {root : Node} {session after : Session}
    {changed : Option Node} {limits : WalkLimits} (time : limits.expired = false)
    (going : session.cancelled = false)
    (visited : (visitor.visit root ⟨root, []⟩).run.run { session with board := .empty } =
      (.ok ⟨.ofOption changed, .skipChildren⟩, after))
    (left : ∀ node trail session, (visitor.leave node trail).run.run session =
      (.ok .keep, session)) :
    walk visitor limits root session = (.ok changed, after) := by
  have accepted : refusal? limits (start root session).session = none := by
    simp [refusal?, start, going, time]
  have deep : ∃ below, root.height + limits.spareDepth = below + 1 :=
    ⟨Node.heightOfAll root.children + limits.spareDepth, by rw [Node.height_eq]; omega⟩
  rcases deep with ⟨below, deep⟩
  have looked : ∃ call, runAt (visit visitor root) (start root session) =
      (.ok ⟨.ofOption changed, .skipChildren⟩, (start root session).after after call) := by
    rw [visit, runAt_call, show (start root session).trail = ⟨root, []⟩ from rfl,
      show (start root session).session = { session with board := .empty } from rfl, visited]
    exact ⟨_, rfl⟩
  rcases looked with ⟨call, looked⟩
  have goesOn : (Transform.ofOption changed).node? root = some (changed.getD root) := by
    cases changed <;> rfl
  rw [walk, walkRoot, deep, runAt_walkNode_succ, accepted]
  simp only
  rw [looked, followed_ok, if_neg (by simp), goesOn]
  simp only
  rw [show decide (Control.skipChildren = Control.descend) = false from rfl, runAt_finishNode_skip,
    runAt_lookAgain (left _ _ _)]
  cases changed <;> rfl

namespace AddImport

variable (edit : AddImport)

/-! ## The declaration that is made -/

theorem tokensTextOfAll_intersperse (pieces : List (List Char)) :
    Node.tokensTextOfAll (((pieces.map String.ofList).map Java.Made.nameSegment).intersperse
      (Java.Made.punctuation ".")) = String.ofList (Text.joinWith '.' pieces) := by
  have segment (text : String) : (Java.Made.nameSegment text).tokensText = text := by
    rw [Java.Made.nameSegment]
    split
    next star =>
      rw [star]
      rfl
    next => exact String.append_empty
  induction pieces with
  | nil => rfl
  | cons first rest induction =>
      cases rest with
      | nil =>
          rw [List.map_singleton, List.map_singleton, List.intersperse_singleton,
            Node.tokensTextOfAll, Node.tokensTextOfAll, segment, Text.joinWith, String.append_empty]
      | cons next rest =>
          rw [List.map_cons, List.map_cons, List.map_cons, List.map_cons,
            List.intersperse_cons_cons, Node.tokensTextOfAll, Node.tokensTextOfAll, ← List.map_cons,
            ← List.map_cons, induction, segment, Text.joinWith, String.ofList_append]
          rw [show (Java.Made.punctuation ".").tokensText = String.ofList ['.'] from rfl,
            ← String.ofList_append, List.singleton_append]

theorem tokensText_qualifiedName (name : String) :
    (Java.Made.qualifiedName name).tokensText = name := by
  rw [Java.Made.qualifiedName, Node.branch, Node.tokensText, Text.splitString,
    tokensTextOfAll_intersperse, Text.joinWith_splitAt]
  simp

theorem isCoveredBy_content (declaration : Node) :
    edit.isCoveredBy declaration.content = edit.isCoveredBy declaration := by
  simp [isCoveredBy, isStaticImport, nameIn, List.any_map, Function.comp_def]
  rfl

theorem isCoveredBy_made : edit.isCoveredBy edit.made = true := by
  have named := tokensText_qualifiedName edit.imported
  have kind : (Java.Made.qualifiedName edit.imported).kind = .qualifiedName := rfl
  rw [isCoveredBy, nameIn, isStaticImport, made, Java.Made.importDecl]
  generalize Java.Made.qualifiedName edit.imported = name at named kind
  cases edit.isStatic <;>
    simp [Node.branch, Node.childrenOfKind, Node.is, Java.Made.keyword, Java.Made.punctuation,
      Node.token, kind, named]

/-! ## The file -/

theorem mem_place (declaration : Node) (children : List Node) :
    declaration ∈ place declaration children := by
  rw [place]
  split <;> simp

/-- The declaration as it is put into a file. -/
def declaration (next : Nat) : Node := (edit.made.number next).1

theorem isVisible_place (file : Node) (next : Nat) :
    edit.isVisible (file.withChildren (place (edit.declaration next) file.children)) = true := by
  have content : (edit.declaration next).content = edit.made.content := Node.content_number _ _
  have covers : edit.isCoveredBy (edit.declaration next) = true := by
    rw [← isCoveredBy_content, content, isCoveredBy_content, isCoveredBy_made]
  have kind : (edit.declaration next).kind = .importDecl := by
    rw [← Node.kind_content, content, Node.kind_content]
    rfl
  rw [isVisible, Bool.or_eq_true, List.any_eq_true]
  refine .inr ⟨edit.declaration next, List.mem_filter.2 ⟨mem_place _ _, ?_⟩, covers⟩
  rw [Node.is, kind, decide_eq_true rfl]

section

variable {edit} {limits : WalkLimits} (time : limits.expired = false) {file : Node}
  (isFile : file.kind = .sourceFile) {session : Session} (going : session.cancelled = false)

include time isFile going

theorem walk_of_visible (visible : edit.isVisible file = true) :
    walk edit.visitor limits file session = (.ok none, { session with board := .empty }) := by
  refine walk_of_skipped time going ?_ fun _ _ _ => rfl
  show (edit.visit file ⟨file, []⟩).run.run _ = _
  rw [visit, Node.is, isFile, visible]
  rfl

theorem walk_of_not_visible (hidden : edit.isVisible file = false) :
    walk edit.visitor limits file session =
      (.ok (some (file.withChildren (place (edit.declaration session.nextId) file.children))),
        { session with board := .empty, nextId := (edit.made.number session.nextId).2 }) := by
  refine walk_of_skipped time going ?_ fun _ _ _ => rfl
  show (edit.visit file ⟨file, []⟩).run.run _ = _
  rw [visit, Node.is, isFile, hidden]
  rfl

end

end AddImport

end Verbatim
