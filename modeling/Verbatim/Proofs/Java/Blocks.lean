import Verbatim.Proofs.Java.Shapes

/-! Where declarations stand. Classes and values of enumerations grow at the top of files and in
the bodies of classes and values. A block that is no such body, as that of a method is none,
holds neither classes nor values, however deep; and there are no files in files. -/

namespace Verbatim.Java

/-- Nodes of these kinds may have bodies with members. -/
def ownsMembers (kind : Kind) : Bool := kind = .classDecl || kind = .enumValue

def PlainBlock (node : Node) : Prop :=
  node.kind = .block → node.Everywhere fun part => ownsMembers part.kind = false

def Sheltering (node : Node) : Prop :=
  (ownsMembers node.kind = false → ∀ child ∈ node.children, PlainBlock child) ∧
    ∀ child ∈ node.children, child.kind ≠ .sourceFile

namespace Rule

def besideBodies (rule : Rule) : Bool := rule ≠ classBody && rule ≠ enumBody

def inBlocks (rule : Rule) : Bool :=
  [block, blockItem, statementStart, statementRest, statementContinues, group, parenGroup,
    groupItem].contains rule

theorem branches_inBlocks (name : Rule) (inside : name.inBlocks = true) :
    (body name).Branches (fun kind _ => !ownsMembers kind) inBlocks = true := by
  revert name
  decide

def isSheltered (kind : Kind) (part : Body) : Bool :=
  kind ≠ .block || part.Branches (fun kind _ => !ownsMembers kind) inBlocks

theorem tops_besideBodies (name : Rule) (beside : name.besideBodies = true) :
    (body name).Tops isSheltered besideBodies = true := by
  revert name
  decide

theorem grows_noFile (name : Rule) (inner : decide (name ≠ compilationUnit) = true) :
    (body name).Grows (· ≠ .sourceFile) (· ≠ compilationUnit) = true := by
  revert name
  decide

theorem branches_sheltering (name : Rule) : (body name).Branches
    (fun kind part => (ownsMembers kind || part.Tops isSheltered besideBodies) &&
      part.Grows (· ≠ .sourceFile) (· ≠ compilationUnit)) (fun _ => true) = true := by
  revert name
  decide

end Rule

theorem ownsMembers_of_isToken {kind : Kind} (isToken : kind.isToken = true) :
    ownsMembers kind = false := by
  cases kind <;> first | rfl | cases isToken

theorem plainBlock_of_tops {part : Grammar Rule} {taken : List Lexeme} {nodes : List Node}
    (yields : Yields Rule.body part taken nodes)
    (tops : part.Tops Rule.isSheltered Rule.besideBodies = true) :
    ∀ node ∈ nodes, PlainBlock node := by
  refine yields.tops Rule.tops_besideBodies ?_ ?_ tops
  · rintro lexeme kind isToken isBlock
    rw [show kind = .block from isBlock] at isToken
    cases isToken
  · intro kind inner taken nodes sheltered innerYields isBlock
    have isKind : kind = .block := isBlock
    rw [Rule.isSheltered, isKind, decide_eq_false (not_not_intro rfl), Bool.false_or] at sheltered
    refine Node.everywhere_iff.2 ⟨by rw [isBlock]; rfl, ?_⟩
    refine innerYields.everywhere Rule.branches_inBlocks ?_ ?_ sheltered
    · exact fun lexeme kind isToken => ownsMembers_of_isToken isToken
    · exact fun plain _ => Bool.not_eq_true' _ ▸ plain

theorem sheltering_grow {kind : Kind} {part : Grammar Rule} {taken : List Lexeme}
    {nodes : List Node}
    (sheltered : ownsMembers kind = true ∨ part.Tops Rule.isSheltered Rule.besideBodies = true)
    (noFile : part.Grows (· ≠ .sourceFile) (· ≠ Rule.compilationUnit) = true)
    (yields : Yields Rule.body part taken nodes) : Sheltering (Grammar.grow kind nodes) := by
  constructor
  · intro noOwner
    rcases sheltered with owner | tops
    · rw [show ownsMembers kind = false from noOwner] at owner
      cases owner
    · exact plainBlock_of_tops yields tops
  · intro child member isFile
    rcases yields.kinds Rule.grows_noFile noFile child member with isToken | other
    · rw [isFile] at isToken
      cases isToken
    · exact of_decide_eq_true other isFile

theorem sheltering_bare_iff (node : Node) : Sheltering node.bare ↔ Sheltering node := by
  have plain (child : Node) : PlainBlock child.bare ↔ PlainBlock child := by
    rw [PlainBlock, PlainBlock, Node.kind_bare, Node.bare]
    refine imp_congr_right fun _ => Node.everywhere_mapHeads (fun part => ?_) child
    rw [← Node.bare, Node.kind_bare]
  rw [Sheltering, Sheltering, Node.kind_bare, Node.children_bare, List.forall_mem_map,
    List.forall_mem_map]
  simp only [plain, Node.kind_bare]

theorem sheltering_of_parse {text : String} {tree : Node} (parsed : parse text = .ok tree) :
    tree.Everywhere Sheltering := by
  rcases parse_yields parsed with ⟨taken, root, yields, bare⟩
  refine Node.everywhere_of_mapHeads_eq sheltering_bare_iff bare ?_
  refine yields.everywhere (fun name _ => Rule.branches_sheltering name) ?_ ?_ rfl root
    (List.mem_singleton_self root)
  · exact fun lexeme kind _ => ⟨fun _ _ absent => absurd absent List.not_mem_nil,
      fun _ absent => absurd absent List.not_mem_nil⟩
  · intro kind part taken nodes allowed partYields
    rw [Bool.and_eq_true, Bool.or_eq_true] at allowed
    exact sheltering_grow allowed.1 allowed.2 partYields

end Verbatim.Java
