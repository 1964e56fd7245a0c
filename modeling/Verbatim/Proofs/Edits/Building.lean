import Mathlib.Data.List.TakeDrop
import Verbatim.Edits.Standard
import Verbatim.Proofs.Reachable

/-! The edits of the catalog build what they put into a tree from what they see there. -/

namespace Verbatim

open Node

theorem Built.mono {given more : Node → Prop} {node : Node} (built : Built given node)
    (implies : ∀ other, given other → more other) : Built more node := by
  induction built generalizing more with
  | given member => exact .given (implies _ member)
  | java parsed => exact .java parsed
  | plainText read => exact .plainText read
  | token kind text => exact .token kind text
  | branch kind _ children => exact .branch kind fun child member => children child member implies
  | child _ member node => exact .child (node implies) member
  | withText text _ node => exact .withText text (node implies)
  | withLeading leading _ node => exact .withLeading leading (node implies)
  | withDefaultLeading _ node => exact .withDefaultLeading (node implies)
  | withTrailing trailing _ node => exact .withTrailing trailing (node implies)
  | withChildren _ _ node children =>
      exact .withChildren (node implies) fun child member => children child member implies
  | withMarkers markers _ node => exact .withMarkers markers (node implies)
  | withMarker marker _ node => exact .withMarker marker (node implies)
  | withId id _ node => exact .withId id (node implies)
  | number next _ node => exact .number next (node implies)
  | hoist _ node => exact .hoist (node implies)
  | resolveFormatting _ resolved node => exact .resolveFormatting (node implies) resolved
  | walk stands _ _ _ walked root visit leave =>
      refine .walk stands (root implies) ?_ ?_ walked
      · intro seen above before after answer answered new either
        exact visit seen above before after answer answered new either fun other material =>
          material.imp_left (implies other)
      · intro seen above before after answer answered new either
        exact leave seen above before after answer answered new either fun other material =>
          material.imp_left (implies other)

/-- The answers of the visitor are built from the nodes it sees. -/
structure Visitor.Builds (visitor : Visitor) : Prop where
  visit : ∀ (seen : Node) (above : List Node),
    Ensures (fun _ => True) (visitor.visit seen ⟨seen, above⟩) fun visit =>
      ∀ new ∈ visit.transform.nodes seen, Built (fun other => other ∈ seen :: above) new
  leave : ∀ (seen : Node) (above : List Node),
    Ensures (fun _ => True) (visitor.leave seen ⟨seen, above⟩) fun transform =>
      ∀ new ∈ transform.nodes seen, Built (fun other => other ∈ seen :: above) new

theorem Visitor.Builds.reachable {visitor : Visitor} (builds : visitor.Builds)
    {limits : WalkLimits} {session : Session} {root node : Node} (reachable : Reachable root)
    (walked : (walk visitor limits root session).1 = .ok (some node)) : Reachable node := by
  refine .walk (fun _ _ => False) reachable ?_ ?_ walked
  · intro seen above before after answer answered new either
    rcases either with member | ⟨_, _, _, _, impossible⟩
    · exact ((builds.visit seen above before answer after trivial answered).2 new member).mono
        fun _ inSight => .inr (.inl inSight)
    · cases impossible
  · intro seen above before after answer answered new either
    rcases either with member | ⟨_, _, _, _, impossible⟩
    · exact ((builds.leave seen above before answer after trivial answered).2 new member).mono
        fun _ inSight => .inr (.inl inSight)
    · cases impossible

/-! ## Edits -/

section

variable {seen : Node} {above : List Node}

theorem builds_keep : ∀ new ∈ Transform.keep.nodes seen,
    Built (fun other => other ∈ seen :: above) new := by
  intro new member
  rw [List.mem_singleton.1 member]
  exact .given List.mem_cons_self

end

theorem onVisit_builds {name : String} {visit : Node → HookM Visit}
    (builds : ∀ (seen : Node) (above : List Node),
      Ensures (fun _ => True) (visit seen ⟨seen, above⟩) fun visit =>
        ∀ new ∈ visit.transform.nodes seen, Built (fun other => other ∈ seen :: above) new) :
    (Visitor.onVisit name visit).Builds :=
  ⟨builds, fun _ _ => .pure builds_keep⟩

theorem ChangeText.builds (edit : ChangeText) : edit.visitor.Builds := by
  apply onVisit_builds
  intro seen above
  apply Ensures.pure
  rw [ChangeText.visit]
  split
  · intro new member
    rw [List.mem_singleton.1 member]
    exact .withText _ (.given List.mem_cons_self)
  · exact builds_keep

theorem RenameIdentifier.builds (edit : RenameIdentifier) : edit.visitor.Builds := by
  apply onVisit_builds
  intro seen above
  apply Ensures.pure
  rw [RenameIdentifier.visit]
  split
  · intro new member
    rw [List.mem_singleton.1 member]
    exact .withText _ (.given List.mem_cons_self)
  · exact builds_keep

theorem FindIdentifier.builds (search : FindIdentifier) : search.visitor.Builds := by
  apply onVisit_builds
  intro seen above
  apply Ensures.pure
  rw [FindIdentifier.visit]
  split
  · intro new member
    rw [List.mem_singleton.1 member]
    exact .withMarker _ (.given List.mem_cons_self)
  · exact builds_keep

theorem RemoveAnnotations.builds (edit : RemoveAnnotations) : edit.visitor.Builds := by
  constructor
  · intro seen above
    have removed : ∀ new ∈ Transform.remove.nodes seen,
        Built (fun other => other ∈ seen :: above) new :=
      fun new member => absurd member List.not_mem_nil
    simp only [RemoveAnnotations.visitor, RemoveAnnotations.visit]
    split
    · exact .pure builds_keep
    · apply (Ensures.anything _).bindHook
      intro trail _
      split
      · exact (Ensures.anything _).bindHook fun _ _ => .pure removed
      · exact .pure removed
  · intro seen above
    simp only [RemoveAnnotations.visitor, RemoveAnnotations.leave]
    split
    · exact .pure builds_keep
    · apply (Ensures.anything _).bindHook
      intro message _
      split
      · exact .pure builds_keep
      · apply Ensures.pure
        rw [RemoveAnnotations.stripFirst]
        split
        · exact builds_keep
        next first rest children =>
          have inside : ∀ child ∈ first :: rest,
              Built (fun other => other ∈ seen :: above) child := by
            intro child member
            rw [← children] at member
            exact .child (.given List.mem_cons_self) member
          intro new member
          rw [List.mem_singleton.1 member]
          apply Built.withChildren (.given List.mem_cons_self)
          intro child childMember
          rcases List.mem_cons.1 childMember with rfl | childMember
          · exact .withLeading _ (inside first List.mem_cons_self)
          · exact inside child (List.mem_cons_of_mem _ childMember)

section

variable {given : Node → Prop}

theorem built_intersperse {separator : Node} {nodes : List Node}
    (builtSeparator : Built given separator) (built : ∀ node ∈ nodes, Built given node) :
    ∀ node ∈ nodes.intersperse separator, Built given node := by
  fun_induction List.intersperse separator nodes with
  | case1 => exact built
  | case2 first => exact built
  | case3 first rest notEmpty induction =>
      intro node member
      rcases List.mem_cons.1 member with rfl | member
      · exact built node List.mem_cons_self
      · rcases List.mem_cons.1 member with rfl | member
        · exact builtSeparator
        · exact induction (fun other inside => built other (List.mem_cons_of_mem _ inside)) node
            member

theorem built_made_importDecl (name : String) (isStatic : Bool) :
    Built given (Java.Made.importDecl name isStatic) := by
  have named : Built given (Java.Made.qualifiedName name) := by
    refine .branch _ (built_intersperse (.token _ _) fun child member => ?_)
    rcases List.mem_map.1 member with ⟨segment, -, rfl⟩
    rw [Java.Made.nameSegment]
    split <;> exact .token _ _
  apply Built.branch
  intro child member
  rcases List.mem_append.1 member with member | member
  · rcases List.mem_append.1 member with member | member
    · rw [List.mem_singleton.1 member]
      exact .token _ _
    · split at member
      · rw [List.mem_singleton.1 member]
        exact .token _ _
      · cases member
  · rcases List.mem_cons.1 member with rfl | member
    · exact named
    · rw [List.mem_singleton.1 member]
      exact .token _ _

theorem built_separateFirst {nodes : List Node} (built : ∀ node ∈ nodes, Built given node) :
    ∀ node ∈ AddImport.separateFirst nodes, Built given node := by
  cases nodes with
  | nil => exact built
  | cons next rest =>
      intro node member
      rcases List.mem_cons.1 member with rfl | member
      · rw [AddImport.separate]
        split
        · exact built next List.mem_cons_self
        · exact .withLeading _ (built next List.mem_cons_self)
      · exact built node (List.mem_cons_of_mem _ member)

theorem built_splitBehindLast (kind : Kind) {children : List Node}
    (built : ∀ child ∈ children, Built given child) :
    (∀ child ∈ (AddImport.splitBehindLast kind children).1, Built given child) ∧
      ∀ child ∈ (AddImport.splitBehindLast kind children).2, Built given child := by
  rw [AddImport.splitBehindLast, List.span_eq_takeWhile_dropWhile]
  constructor
  · intro child member
    exact built child (List.mem_reverse.1
      ((List.dropWhile_sublist _).subset (List.mem_reverse.1 member)))
  · intro child member
    exact built child (List.mem_reverse.1
      ((List.takeWhile_sublist _).subset (List.mem_reverse.1 member)))

theorem built_splitBehindFirst (kind : Kind) {children : List Node}
    (built : ∀ child ∈ children, Built given child) :
    (∀ child ∈ (AddImport.splitBehindFirst kind children).1, Built given child) ∧
      ∀ child ∈ (AddImport.splitBehindFirst kind children).2, Built given child := by
  have front : ∀ child ∈ children.takeWhile fun child => !child.is kind, Built given child :=
    fun child member => built child ((List.takeWhile_sublist _).subset member)
  have back : ∀ child ∈ children.dropWhile fun child => !child.is kind, Built given child :=
    fun child member => built child ((List.dropWhile_sublist _).subset member)
  rw [AddImport.splitBehindFirst, List.span_eq_takeWhile_dropWhile]
  generalize (children.takeWhile fun child => !child.is kind) = before at front
  generalize (children.dropWhile fun child => !child.is kind) = behind at back
  cases behind with
  | nil => exact ⟨fun child member => absurd member List.not_mem_nil, built⟩
  | cons first rest =>
      constructor
      · intro child member
        rcases List.mem_append.1 member with member | member
        · exact front child member
        · rw [List.mem_singleton.1 member]
          exact back first List.mem_cons_self
      · exact fun child member => back child (List.mem_cons_of_mem _ member)

theorem built_place {made : Node} {children : List Node} (builtMade : Built given made)
    (built : ∀ child ∈ children, Built given child) :
    ∀ child ∈ AddImport.place made children, Built given child := by
  have insert : ∀ {upTo behind : List Node}, (∀ child ∈ upTo, Built given child) →
      (∀ child ∈ behind, Built given child) →
      ∀ child ∈ upTo ++ made :: behind, Built given child := by
    intro upTo behind builtUpTo builtBehind child member
    rcases List.mem_append.1 member with member | member
    · exact builtUpTo child member
    · rcases List.mem_cons.1 member with rfl | member
      · exact builtMade
      · exact builtBehind child member
  rcases built_splitBehindLast .importDecl built with ⟨upTo, behind⟩
  rcases built_splitBehindFirst .package built with ⟨upToFirst, behindFirst⟩
  rw [AddImport.place]
  split
  next equal => exact insert upToFirst (built_separateFirst behindFirst)
  next front back notEmpty equal =>
    rw [equal] at upTo behind
    exact insert upTo behind

end

theorem AddImport.builds (edit : AddImport) : edit.visitor.Builds := by
  apply onVisit_builds
  intro seen above
  rw [AddImport.visit]
  split
  · exact .pure builds_keep
  · split
    · exact .pure builds_keep
    · have numbered : Ensures (fun _ => True) (HookM.number edit.made ⟨seen, above⟩)
          (Built fun other => other ∈ seen :: above) :=
        (Ensures.anything _).bindHook fun session _ => (Ensures.anything _).bindHook fun _ _ =>
          .pure (.number _ (built_made_importDecl _ _))
      apply numbered.bindHook
      intro declaration built
      apply Ensures.pure
      intro new member
      rw [List.mem_singleton.1 member]
      apply Built.withChildren (.given List.mem_cons_self)
      apply built_place built
      exact fun child inside => .child (.given List.mem_cons_self) inside

theorem built_applyWanted {given : Node → Prop} {wanted : List (Option Nat)} {nodes : List Node}
    (built : ∀ node ∈ nodes, Built given node) :
    ∀ node ∈ List.zipWith BlankLines.applyWanted wanted nodes, Built given node := by
  induction nodes generalizing wanted with
  | nil =>
      rw [List.zipWith_nil_right]
      exact built
  | cons first rest induction =>
      cases wanted with
      | nil => exact fun node member => absurd member List.not_mem_nil
      | cons count counts =>
          intro node member
          rcases List.mem_cons.1 member with rfl | member
          · cases count with
            | none => exact built first List.mem_cons_self
            | some count => exact .withLeading _ (built first List.mem_cons_self)
          · exact induction (fun other inside => built other (List.mem_cons_of_mem _ inside)) node
              member

theorem BlankLines.adjust_builds {bounds : Node → Node → Bool → Option BlankLines.Bounds}
    (seen : Node) (above : List Node) :
    Ensures (fun _ => True) (BlankLines.adjust bounds seen ⟨seen, above⟩)
      fun visit => ∀ new ∈ visit.transform.nodes seen,
        Built (fun other => other ∈ seen :: above) new := by
  rw [BlankLines.adjust]
  cases children : seen.children with
  | nil => exact .pure builds_keep
  | cons first rest =>
      have inside : ∀ child ∈ first :: rest, Built (fun other => other ∈ seen :: above) child := by
        intro child member
        rw [← children] at member
        exact .child (.given List.mem_cons_self) member
      simp only
      split
      · exact .throw
      · split
        · exact .pure builds_keep
        · apply Ensures.pure
          intro new member
          rw [List.mem_singleton.1 member]
          apply Built.withChildren (.given List.mem_cons_self)
          intro child childMember
          rcases List.mem_cons.1 childMember with rfl | childMember
          · exact inside child List.mem_cons_self
          · exact built_applyWanted (fun other inRest => inside other
              (List.mem_cons_of_mem _ inRest)) child childMember

theorem BlankLines.builds (style : BlankLines) : style.visitor.Builds := by
  apply onVisit_builds
  intro seen above
  rw [BlankLines.visit]
  cases seen.kind with
  | sourceFile => exact BlankLines.adjust_builds seen above
  | block =>
      exact (Ensures.anything _).bindHook fun trail _ =>
        .iteHook (BlankLines.adjust_builds seen above) (.pure builds_keep)
  | _ => exact .pure builds_keep

end Verbatim
