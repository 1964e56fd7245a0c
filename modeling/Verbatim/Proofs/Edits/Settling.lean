import Mathlib
import Verbatim.Proofs.Edits.Blanks
import Verbatim.Proofs.Edits.Clearing
import Verbatim.Proofs.Edits.Heads
import Verbatim.Proofs.Edits.Imports
import Verbatim.Proofs.Java.Shapes
import Verbatim.Proofs.Languages
import Verbatim.Proofs.Recipe.Reaching
import Verbatim.Proofs.Recipe.Settling

/-! The edits of the catalog are done after one walk through a file. -/

namespace Verbatim

namespace RemoveAnnotations

/-! ## Names in files -/

theorem plainName_mapHeads_iff {change : NodeHead → NodeHead}
    (keeps : ∀ head, (change head).kind = head.kind) (node : Node) :
    PlainName (node.mapHeads change) ↔ PlainName node := by
  have kind (other : Node) : (other.mapHeads change).kind = other.kind := by
    rw [Node.toNodeHead_mapHeads, keeps]
  rw [PlainName, PlainName, kind, Node.everywhere_mapHeads fun other => by rw [kind]]

theorem plainName_of_parse {text : String} {tree : Node} (parsed : Java.parse text = .ok tree) :
    tree.Everywhere PlainName := by
  have tokens : tree.Everywhere fun node => node.kind = .qualifiedName → ∀ child ∈ node.children,
      child.kind.isToken = true :=
    Java.tokens_of_parse parsed fun name => by cases name <;> rfl
  have regular := (Java.parse_readFrom parsed).regular
  intro name member isName
  refine Node.everywhere_iff.2 ⟨by rw [isName]; decide, fun child inside => ?_⟩
  have isToken := tokens name member isName child inside
  have noChildren : child.children = [] := by
    rcases ((regular.below member).child inside).here.leafOrBranch with leaf | branch
    · exact leaf.2.2
    · rw [isToken] at branch
      cases branch.1
  refine Node.everywhere_iff.2 ⟨?_, fun part below => ?_⟩
  · intro other
    rw [other] at isToken
    cases isToken
  · rw [noChildren] at below
    cases below

end RemoveAnnotations

/-- A file as a reader gives it, numbered. -/
structure Node.IsFile (text : String) (tree : Node) : Prop where
  kind : tree.kind = .sourceFile
  distinct : tree.Everywhere Distinct
  names : tree.Everywhere RemoveAnnotations.PlainName
  short : BlankLines.Short text tree

theorem Node.IsFile.of_number {text : String} {tree : Node} (kind : tree.kind = .sourceFile)
    (names : tree.Everywhere RemoveAnnotations.PlainName) (readFrom : tree.ReadFrom text)
    (first : Nat) : (tree.number first).1.IsFile text where
  kind := by
    rw [← Node.kind_content, Node.content_number, Node.kind_content, kind]
  distinct := Node.distinct_number tree first
  names := by
    apply Node.everywhere_of_mapHeads_eq _ (Node.withoutIds_number tree first) names
    exact RemoveAnnotations.plainName_mapHeads_iff fun _ => rfl
  short := BlankLines.short_of_readFrom readFrom first

theorem Node.isFile_of_parse {text : String} {read : Node} (parsed : Java.parse text = .ok read)
    (first : Nat) : (read.number first).1.IsFile text :=
  .of_number (Java.kind_of_parse parsed) (RemoveAnnotations.plainName_of_parse parsed)
    (Java.parse_readFrom parsed) first

section

variable {limits : WalkLimits} (time : limits.expired = false) {tree : Node}

include time

theorem HeadEdit.settles {edit : HeadEdit} {visitor : Visitor}
    (decides : visitor.Decides edit.looks)
    (settles : edit.Settles) : visitor.Settles limits tree := by
  apply settles_of_decides decides time trivial
  intro depth depth' left fit isLeft fitLeft
  constructor
  · trivial
  · rw [edit.content_become none fitLeft]
    exact settles.content_twice (isLeft ▸ edit.content_become none fit)

variable {text : String} (isFile : tree.IsFile text)

include isFile

theorem AddImport.settles (edit : AddImport) : edit.visitor.Settles limits tree := by
  have unchanged (file : Node) (kind : file.kind = .sourceFile)
      (visible : edit.isVisible file = true)
      {session : Session} (going : session.cancelled = false) :
      ∃ again ended, walk edit.visitor limits file session = (.ok again, ended) ∧
        (again.getD file).contentEq file :=
    ⟨none, _, walk_of_visible time kind going visible, Node.contentEq_equivalence.refl file⟩
  intro session going
  cases visible : edit.isVisible tree with
  | true =>
      exact ⟨none, _, walk_of_visible time isFile.kind going visible, going,
        fun session' going' => unchanged tree isFile.kind visible going'⟩
  | false =>
      refine ⟨_, _, walk_of_not_visible time isFile.kind going visible,
        going, fun session' going' => ?_⟩
      exact unchanged (tree.withChildren _) isFile.kind
        (edit.isVisible_place tree session.nextId) going'

theorem RemoveAnnotations.settles (edit : RemoveAnnotations) :
    edit.visitor.Settles limits tree := by
  intro session going
  rcases walks_of_distinct time isFile.distinct isFile.names isFile.kind going with
    ⟨changed, after, walked, stillGoing, -, again⟩
  refine ⟨changed, after, walked, stillGoing, fun session' going' => ?_⟩
  rcases again session' going' with ⟨ended, walkedAgain⟩
  exact ⟨none, ended, walkedAgain, Node.contentEq_equivalence.refl _⟩

theorem BlankLines.settles {style : BlankLines} (fits : style.Fits text) :
    style.visitor.Settles limits tree := by
  apply settles_of_decides (decides fits) time isFile.short
  intro depth depth' left fit isLeft fitLeft
  cases isLeft
  constructor
  · exact short_become fits none isFile.short
  · rw [Look.become_of_quiet (quiet_become none fit), Option.getD_none]

end

/-! ## The catalog -/

/-- As many line breaks as any number in the settings asks for fit into a text. Only limits for
blank lines are numbers, and a maximum asks for none that are not there. -/
def Settings.Fit (settings : Settings) (text : String) : Prop :=
  ∀ parameter limit, settings.optionalNat parameter = .ok (some limit) →
    limit < BlankLines.longestText ∨
      (parameter ∈ BlankLines.maximums ∧ text.utf8ByteSize ≤ BlankLines.longestText)

/-- Every visitor that the kind sets up, with numbers that fit, settles files. -/
def VisitorKind.Settles (kind : VisitorKind) : Prop :=
  ∀ (settings : Settings) (visitor : Visitor) (limits : WalkLimits) (text : String) (tree : Node),
    kind.make settings = .ok visitor → settings.Fit text → limits.expired = false →
    tree.IsFile text → visitor.Settles limits tree

end Verbatim
