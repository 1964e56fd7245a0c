import Verbatim.Proofs.Edits.Adding

/-! Where an import is put in a file, and what else changes: nothing, but for the white space in
front of what follows the first import of a file. -/

namespace Verbatim

open Node

namespace AddImport

variable (edit : AddImport)

/-! ## What can be seen -/

/-- The declaration makes the name visible: by this name or by the star of its owner. -/
def Covers (edit : AddImport) (declaration : Node) : Prop :=
  isStaticImport declaration = edit.isStatic ∧
    (nameIn declaration = some edit.imported ∨ nameIn declaration = some (edit.owner ++ ".*"))

/-- The name can be used in the file: it belongs to the language or to the package of the file,
or it is imported. Members of types are visible only by imports of their own. -/
inductive Sees (edit : AddImport) (file : Node) : Prop
  | core : edit.isStatic = false → edit.owner = corePackage → Sees edit file
  | package (declaration : Node) : edit.isStatic = false → declaration ∈ file.children →
      declaration.kind = .package → nameIn declaration = some edit.owner → Sees edit file
  | imported (declaration : Node) : declaration ∈ file.children → declaration.kind = .importDecl →
      edit.Covers declaration → Sees edit file

theorem isCoveredBy_iff (declaration : Node) :
    edit.isCoveredBy declaration = true ↔ edit.Covers declaration := by
  rw [isCoveredBy, Covers, Bool.and_eq_true, decide_eq_true_eq, Option.any_eq_true]
  simp only [Bool.or_eq_true, decide_eq_true_eq]
  cases nameIn declaration <;> simp

variable {packages imports behind : List Node}

theorem packageOf_eq {file : Node} (children : file.children = packages ++ imports ++ behind)
    (onePackage : packages = [] ∨ ∃ node, packages = [node] ∧ node.kind = .package)
    (noPackages : ∀ node ∈ imports ++ behind, node.kind ≠ .package) :
    packageOf file = packages.head?.bind nameIn := by
  have others : (imports ++ behind).filter (·.is .package) = [] :=
    List.filter_eq_nil_iff.2 fun node member => by
      rw [is, decide_eq_true_eq]
      exact noPackages node member
  rw [packageOf, childrenOfKind, children, List.append_assoc, List.filter_append, others]
  rcases onePackage with rfl | ⟨node, rfl, isPackage⟩
  · rfl
  · simp [is, isPackage]

theorem isVisible_iff_sees {file : Node} (children : file.children = packages ++ imports ++ behind)
    (onePackage : packages = [] ∨ ∃ node, packages = [node] ∧ node.kind = .package)
    (noPackages : ∀ node ∈ imports ++ behind, node.kind ≠ .package) :
    edit.isVisible file = true ↔ edit.Sees file := by
  rw [isVisible_iff, isImplicitlyVisible, packageOf_eq children onePackage noPackages,
    Bool.and_eq_true, Bool.or_eq_true, decide_eq_true_eq, decide_eq_true_eq, Bool.not_eq_true']
  constructor
  · rintro (⟨noStatic, isCore | isPackage⟩ | ⟨declaration, member, covered⟩)
    · exact .core noStatic isCore
    · rcases onePackage with rfl | ⟨node, rfl, kind⟩
      · cases isPackage
      · exact .package node noStatic (by simp [children]) kind isPackage
    · rcases List.mem_filter.1 member with ⟨inside, isImport⟩
      exact .imported declaration inside (of_decide_eq_true isImport)
        ((edit.isCoveredBy_iff declaration).1 covered)
  · rintro (⟨noStatic, isCore⟩ | ⟨node, noStatic, inside, kind, named⟩ |
      ⟨declaration, inside, kind, covers⟩)
    · exact .inl ⟨noStatic, .inl isCore⟩
    · refine .inl ⟨noStatic, .inr ?_⟩
      rw [children, List.append_assoc, List.mem_append] at inside
      rcases inside with inside | inside
      · rcases onePackage with rfl | ⟨other, rfl, -⟩
        · cases inside
        · rw [List.mem_singleton.1 inside] at named
          exact named
      · exact absurd kind (noPackages node inside)
    · exact .inr ⟨declaration, List.mem_filter.2 ⟨inside, by rw [is, kind]; rfl⟩,
        (edit.isCoveredBy_iff declaration).2 covers⟩

theorem isVisible_iff_sees_of_parse {text : String} {read file : Node}
    (parsed : Java.parse text = .ok read) (same : file.content = read.content) :
    edit.isVisible file = true ↔ edit.Sees file := by
  rcases Java.exists_parts parsed same with ⟨_, _, packages, imports, behind, -, -, children, parts⟩
  refine edit.isVisible_iff_sees children parts.onePackage (List.forall_mem_append.2 ⟨?_, ?_⟩)
  · intro node member
    rw [parts.areImports node member]
    decide
  · exact fun node member => (parts.areOthers node member).1

/-! ## The declaration -/

/-- The declaration is an import of the name, with the word for members of types if it is one. -/
structure Declares (edit : AddImport) (declaration : Node) : Prop where
  kind : declaration.kind = .importDecl
  static : (∃ word ∈ declaration.children, word.kind = .keyword ∧ word.text = some "static") ↔
    edit.isStatic = true
  named : ∃ name, declaration.childrenOfKind .qualifiedName = [name] ∧
    name.tokensText = edit.imported

theorem declares_made : edit.Declares edit.made := by
  have named := tokensText_qualifiedName edit.imported
  have kind : (Java.Made.qualifiedName edit.imported).kind = .qualifiedName := rfl
  rw [made, Java.Made.importDecl]
  generalize Java.Made.qualifiedName edit.imported = name at named kind
  refine ⟨rfl, ?_, name, ?_, named⟩ <;>
    cases edit.isStatic <;>
    simp [branch, childrenOfKind, is, Java.Made.keyword, Java.Made.punctuation, token, kind]

theorem declares_content (declaration : Node) :
    edit.Declares declaration.content ↔ edit.Declares declaration := by
  constructor
  · rintro ⟨kind, static, name, names, named⟩
    rw [childrenOfKind_content, List.map_eq_singleton_iff] at names
    rcases names with ⟨other, names, rfl⟩
    exact ⟨by simpa using kind, by simpa using static, other, names, by simpa using named⟩
  · rintro ⟨kind, static, name, names, named⟩
    exact ⟨by simpa using kind, by simpa using static, name.content, by simp [names],
      by simpa using named⟩

theorem declares_declaration (next : Nat) : edit.Declares (edit.declaration next) := by
  rw [← declares_content, declaration, content_number, declares_content]
  exact edit.declares_made

theorem separate_eq (next : Node) : separate next =
    if next.kind ≠ .endOfFile ∧ next.leadingOrEmpty.newlines < 2 then
      next.withLeading (next.leadingOrEmpty.withWhitespace "\n\n")
    else next := by
  rw [separate, is]
  by_cases isEnd : next.kind = .endOfFile
  · simp [isEnd]
  · simp only [isEnd, decide_false, Bool.false_or, decide_eq_true_eq, ne_eq, not_false_eq_true,
      true_and, ← Nat.not_le, ite_not]

/-- A file that can see a name is left as it is. To any other file an import of the name is
added as a child, behind the imports that are there and the package; and of the children that
were there before, all of which stay in their order, only the first behind the package gets
other white space in front of it, if this is the first import. -/
theorem adding_places (edit : AddImport) {text : String} {read : Node}
    (parsed : Java.parse text = .ok read) (first : Nat) {limits : WalkLimits}
    (time : limits.expired = false) {session : Session} (going : session.cancelled = false) :
    ∃ packages imports next rest changed after,
      (read.number first).1.children = packages ++ imports ++ next :: rest ∧
      (packages = [] ∨ ∃ node, packages = [node] ∧ node.kind = .package) ∧
      (∀ node ∈ imports, node.kind = .importDecl) ∧
      (∀ node ∈ next :: rest, node.kind ≠ .package ∧ node.kind ≠ .importDecl) ∧
      walk edit.visitor limits (read.number first).1 session = (.ok changed, after) ∧
      (edit.Sees (read.number first).1 → changed = none) ∧
      (¬edit.Sees (read.number first).1 → ∃ declaration,
        edit.Declares declaration ∧
        declaration = (edit.made.number session.nextId).1 ∧
        changed = some ((read.number first).1.withChildren (packages ++ imports ++ declaration ::
          (if imports = [] ∧ next.kind ≠ .endOfFile ∧ next.leadingOrEmpty.newlines < 2 then
            next.withLeading (next.leadingOrEmpty.withWhitespace "\n\n")
          else next) :: rest))) := by
  have same : (read.number first).1.content = read.content := content_number read first
  have isFile : (read.number first).1.kind = .sourceFile := by
    rw [← kind_content, same, kind_content, Java.kind_of_parse parsed]
  rcases Java.exists_parts parsed same with
    ⟨_, _, packages, imports, behind, -, -, children, parts⟩
  have sees := edit.isVisible_iff_sees_of_parse parsed same
  rcases List.exists_cons_of_ne_nil parts.nonempty with ⟨next, rest, rfl⟩
  cases visible : edit.isVisible (read.number first).1 with
  | true =>
      exact ⟨packages, imports, next, rest, none, _, children, parts.onePackage, parts.areImports,
        parts.areOthers, walk_of_visible time isFile going visible, fun _ => rfl,
        fun hidden => absurd (sees.1 visible) hidden⟩
  | false =>
      refine ⟨packages, imports, next, rest, _, _, children, parts.onePackage, parts.areImports,
        parts.areOthers, walk_of_not_visible time isFile going visible,
        fun seen => absurd (sees.2 seen) (by rw [visible]; decide),
        fun _ => ⟨_, edit.declares_declaration session.nextId, rfl, ?_⟩⟩
      rw [children, place_eq _ parts.onePackage parts.areImports parts.areOthers]
      by_cases none : imports = []
      · rw [if_pos none, separateFirst, separate_eq]
        simp only [none, true_and]
      · rw [if_neg none, if_neg fun all => none all.1]

/-- Behind the package of a file without imports there is room for one, and a star makes it
needless. -/
theorem adding_places_of_package :
    (∃ read declaration next rest after package, Java.parse "package a;class X\x7b\x7d" = .ok read ∧
      Declares ⟨"java.util.List", false⟩ declaration ∧ next.kind = .classDecl ∧
      (read.number 1).1.children = package :: next :: rest ∧
      walk (visitor ⟨"java.util.List", false⟩) .none (read.number 1).1 (.start 100 false) =
        (.ok (some ((read.number 1).1.withChildren
          (package :: declaration :: next.withLeading (.ofWhitespace "\n\n") :: rest))), after)) ∧
    ∃ read after, Java.parse "import java.util.*;" = .ok read ∧
      walk (visitor ⟨"java.util.List", false⟩) .none (read.number 1).1 (.start 100 false) =
        (.ok none, after) := by
  have time : WalkLimits.none.expired = false := rfl
  have going : (Session.start 100 false).cancelled = false := rfl
  constructor
  · have evaluated : (Java.parse "package a;class X\x7b\x7d").toOption.map (fun read =>
        (isVisible ⟨"java.util.List", false⟩ (read.number 1).1,
          (read.number 1).1.children.map fun child => (child.kind, child.leading))) =
        some (false,
          [(.package, some .empty), (.classDecl, some .empty), (.endOfFile, some .empty)]) := by
      decide +kernel
    cases parsed : Java.parse "package a;class X\x7b\x7d" with
    | error error =>
        rw [parsed] at evaluated
        cases evaluated
    | ok read =>
        rw [parsed] at evaluated
        rcases Prod.mk.inj (Option.some.inj evaluated) with ⟨hidden, kinds⟩
        rcases adding_places ⟨"java.util.List", false⟩ parsed 1 time going with
          ⟨packages, imports, next, rest, changed, after, children,
            onePackage, areImports, areOthers, walked, -, places⟩
        have sees := isVisible_iff_sees_of_parse ⟨"java.util.List", false⟩ parsed
          (content_number read 1)
        rcases places (fun seen => by rw [sees.2 seen] at hidden; cases hidden) with
          ⟨declaration, declares, -, rfl⟩
        rw [children] at kinds
        obtain rfl : imports = [] := by
          refine List.eq_nil_iff_forall_not_mem.2 fun node member => ?_
          have kind := areImports node member
          have listed := List.mem_map_of_mem (f := fun child => (child.kind, child.leading))
            (List.mem_append_left (next :: rest) (List.mem_append_right packages member))
          rw [kinds, kind] at listed
          simp at listed
        rcases onePackage with rfl | ⟨package, rfl, -⟩
        · have kind := congrArg Prod.fst (List.cons.inj kinds).1
          exact absurd kind (areOthers next List.mem_cons_self).1
        · have pair := (List.cons.inj (List.cons.inj kinds).2).1
          rcases Prod.mk.inj pair with ⟨kind, leading⟩
          refine ⟨read, declaration, next, rest, after, package, rfl, declares, kind, children, ?_⟩
          rw [walked, if_pos ⟨rfl, by rw [kind]; decide, by rw [leadingOrEmpty, leading]; decide⟩,
            leadingOrEmpty, leading]
          rfl
  · have evaluated : (Java.parse "import java.util.*;").toOption.map (fun read =>
        isVisible ⟨"java.util.List", false⟩ (read.number 1).1) = some true := by decide +kernel
    cases parsed : Java.parse "import java.util.*;" with
    | error error =>
        rw [parsed] at evaluated
        cases evaluated
    | ok read =>
        rw [parsed] at evaluated
        rcases adding_places ⟨"java.util.List", false⟩ parsed 1 time going with
          ⟨-, -, -, -, changed, after, -, -, -, -, walked, unchanged, -⟩
        have sees := isVisible_iff_sees_of_parse ⟨"java.util.List", false⟩ parsed
          (content_number read 1)
        rw [unchanged (sees.1 (Option.some.inj evaluated))] at walked
        exact ⟨read, after, rfl, walked⟩

end AddImport

end Verbatim
