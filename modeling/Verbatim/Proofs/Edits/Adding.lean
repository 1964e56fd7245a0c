import Mathlib.Data.List.TakeWhile
import Verbatim.Proofs.Edits.Building
import Verbatim.Proofs.Edits.Imports
import Verbatim.Proofs.Java.Extending
import Verbatim.Proofs.Java.Importing

/-! Files with one import more as texts. What is printed after an import was added is read again
as the tree that was printed, unless a part of the name is reserved or the import comes to stand
behind a comment that goes on to the end of its line. -/

namespace Verbatim

open Node

namespace AddImport

/-! ## Names -/

theorem exists_words {parts : List (List Char)} (areParts_ : areParts parts = true) :
    ∃ words star, parts.map String.ofList = words ++ star ∧
      (∀ word ∈ words, Java.isWord word.toList = true) ∧ (star = [] ∨ star = ["*"]) := by
  induction parts with
  | nil => exact ⟨[], [], rfl, fun _ absent => absurd absent List.not_mem_nil, .inl rfl⟩
  | cons part rest induction =>
      cases rest with
      | nil =>
          rw [areParts, Bool.or_eq_true, decide_eq_true_eq] at areParts_
          rcases areParts_ with rfl | word
          · exact ⟨[], ["*"], rfl, fun _ absent => absurd absent List.not_mem_nil, .inr rfl⟩
          · refine ⟨[String.ofList part], [], rfl, fun other member => ?_, .inl rfl⟩
            rwa [List.mem_singleton.1 member, String.toList_ofList]
      | cons next rest =>
          rw [areParts, Bool.and_eq_true] at areParts_
          rcases induction areParts_.2 with ⟨words, star, equal, areWords, isStar⟩
          refine ⟨String.ofList part :: words, star, by rw [List.map_cons, equal, List.cons_append],
            List.forall_mem_cons.2 ⟨?_, areWords⟩, isStar⟩
          rw [String.toList_ofList]
          exact areParts_.1

theorem exists_segments {name : String} (qualified : isQualified name = true) :
    ∃ first words star, Text.splitString '.' name = first :: (words ++ star) ∧
      (∀ word ∈ first :: words, Java.isWord word.toList = true) ∧ (star = [] ∨ star = ["*"]) := by
  rw [isQualified, Bool.and_eq_true, decide_eq_true_eq] at qualified
  rcases exists_words qualified.2 with ⟨words, star, equal, areWords, isStar⟩
  cases words with
  | cons first words => exact ⟨first, words, star, equal, areWords, isStar⟩
  | nil =>
      have length := congrArg List.length equal
      rw [List.length_map, List.nil_append] at length
      rcases isStar with rfl | rfl <;> rw [length] at qualified <;> simp at qualified

theorem isQualified_of_ofSettings {settings : Settings} {edit : AddImport}
    (accepted : ofSettings settings = .ok edit) : isQualified edit.imported = true := by
  rw [ofSettings] at accepted
  cases only : settings.expectOnly ["typeName", "static"] with
  | error fault =>
      rw [only] at accepted
      cases accepted
  | ok _ =>
      cases named : settings.requiredText "typeName" with
      | error fault =>
          rw [only, named] at accepted
          cases accepted
      | ok imported =>
          simp only [only, named, bind, Except.bind] at accepted
          split at accepted
          next => cases accepted
          next qualified =>
            cases static : settings.optionalBool "static" with
            | error fault =>
                rw [static] at accepted
                cases accepted
            | ok isStatic =>
                rw [static] at accepted
                cases accepted
                simpa using qualified

/-! ## What can be seen -/

variable (edit : AddImport)

@[simp] theorem nameIn_bare (declaration : Node) :
    nameIn declaration.bare = nameIn declaration := by
  rw [nameIn, nameIn, childrenOfKind_bare, List.head?_map]
  cases (declaration.childrenOfKind .qualifiedName).head? <;> simp

@[simp] theorem isCoveredBy_bare (declaration : Node) :
    edit.isCoveredBy declaration.bare = edit.isCoveredBy declaration := by
  rw [isCoveredBy, isCoveredBy, nameIn_bare, isStaticImport, isStaticImport, children_bare,
    List.any_map]
  simp only [Function.comp_def, is_bare, text_bare]

@[simp] theorem isImplicitlyVisible_bare (file : Node) :
    edit.isImplicitlyVisible file.bare = edit.isImplicitlyVisible file := by
  rw [isImplicitlyVisible, isImplicitlyVisible, packageOf, packageOf, childrenOfKind_bare,
    List.head?_map]
  cases (file.childrenOfKind .package).head? <;> simp

@[simp] theorem isVisible_bare (file : Node) : edit.isVisible file.bare = edit.isVisible file := by
  rw [isVisible, isVisible, isImplicitlyVisible_bare, childrenOfKind_bare, List.any_map]
  simp only [Function.comp_def, isCoveredBy_bare]

theorem isVisible_of_content {file other : Node} (same : file.content = other.content) :
    edit.isVisible file = edit.isVisible other := by
  rw [← isVisible_bare, ← bare_content, same, bare_content, isVisible_bare]

theorem isVisible_iff (file : Node) : edit.isVisible file = true ↔
    edit.isImplicitlyVisible file = true ∨
      ∃ declaration ∈ file.childrenOfKind .importDecl, edit.isCoveredBy declaration = true := by
  rw [isVisible, Bool.or_eq_true, List.any_eq_true]

/-! ## The place of the import -/

theorem respaced_separate (next : Node) : Java.RespacedNode next (separate next) := by
  rw [separate]
  split
  · exact .inl rfl
  · refine .inr ⟨_, rfl, rfl, fun c member => ?_⟩
    rw [Trivia.withWhitespace, show "\n\n".toList = ['\n', '\n'] from rfl] at member
    rw [List.eq_of_mem_replicate (show c ∈ List.replicate 2 '\n' from member)]
    rfl

theorem place_eq {packages imports behind : List Node} (made : Node)
    (onePackage : packages = [] ∨ ∃ node, packages = [node] ∧ node.kind = .package)
    (areImports : ∀ node ∈ imports, node.kind = .importDecl)
    (areOthers : ∀ node ∈ behind, node.kind ≠ .package ∧ node.kind ≠ .importDecl) :
    place made (packages ++ imports ++ behind) = packages ++ imports ++
      made :: if imports = [] then separateFirst behind else behind := by
  have others : ∀ node ∈ behind.reverse, (!node.is .importDecl) = true := by
    intro node member
    rw [Node.is, decide_eq_false (areOthers node (List.mem_reverse.1 member)).2]
    rfl
  rw [place, splitBehindLast, List.span_eq_takeWhile_dropWhile, List.reverse_append,
    List.takeWhile_append_of_pos others, List.dropWhile_append_of_pos others, List.reverse_append]
  rcases List.eq_nil_or_concat imports with rfl | ⟨before, last, rfl⟩
  · have noImports : ∀ node ∈ packages.reverse, (!node.is .importDecl) = true := by
      rcases onePackage with rfl | ⟨node, rfl, isPackage⟩
      · exact fun _ absent => absurd absent List.not_mem_nil
      · intro other member
        rw [List.mem_singleton.1 (List.mem_reverse.1 member), Node.is, isPackage]
        rfl
    have noPackages : ∀ node ∈ behind, (!node.is .package) = true := by
      intro node member
      rw [Node.is, decide_eq_false (areOthers node member).1]
      rfl
    rw [List.reverse_nil, List.nil_append, List.dropWhile_eq_nil_iff.2 noImports]
    simp only [List.reverse_nil, List.append_nil, splitBehindFirst,
      List.span_eq_takeWhile_dropWhile]
    rcases onePackage with rfl | ⟨node, rfl, isPackage⟩
    · rw [List.nil_append, List.dropWhile_eq_nil_iff.2 noPackages]
      rfl
    · simp [Node.is, isPackage]
  · have isLast : (!last.is .importDecl) = false := by
      rw [Node.is, areImports last (by simp)]
      rfl
    simp [isLast]

end AddImport

/-! ## Its text -/

namespace Java

section

variable {first : String} {words star : List String}
  (areWords : ∀ word ∈ first :: words, isWord word.toList = true)
  (free : ∀ word ∈ first :: words, isReserved word = false) (isStar : star = [] ∨ star = ["*"])
  (isStatic : Bool) {next new : Node} (lifted : next.Everywhere Lifted)
  (respaced : RespacedNode next new) {leaves : List Leaf}

include areWords isStar in
theorem isSegment_of_mem : ∀ segment ∈ first :: (words ++ star), IsSegment segment := by
  rw [← List.cons_append, List.forall_mem_append]
  refine ⟨fun word member => .inr (areWords word member), fun segment member => .inl ?_⟩
  rcases isStar with rfl | rfl
  · cases member
  · exact List.mem_singleton.1 member

include areWords free isStar lifted respaced

theorem exists_tokens_behind {front back : List Lexeme} (apart : FallsApart (front ++ back))
    (ends : EndsIn ";" front) {leading : String}
    (space : ∀ c ∈ leading.toList, Trivia.isSpace c = true)
    (areLeaves : List.Forall₂ IsLeafOf back (next.leaves ++ leaves)) :
    ∃ others, FallsApart (front ++ others) ∧ List.Forall₂ IsLeafOf others
      ((laidImport leading isStatic first (words ++ star)).leaves ++ (new.leaves ++ leaves)) := by
  have areSegments := isSegment_of_mem areWords isStar
  rcases ends with ⟨start, last, rfl, shape⟩
  rcases Prod.mk.inj shape with ⟨tokenClass, spelled⟩
  have insertable :
      Insertable (importLexemes (.ofWhitespace leading) isStatic first (words ++ star)) :=
    insertable_import isStatic areSegments space
  rw [List.append_assoc, List.singleton_append] at apart
  have semicolon : last.text.toList = [] ++ [';'] := by rw [spelled]; rfl
  rcases insertable.exists_tokens apart semicolon (by decide)
    (fun others => by rw [tokenClass, spelled]; rfl) lifted respaced areLeaves with
    ⟨others, again, othersLeaves⟩
  refine ⟨_, ?_, List.rel_append (leaves_import areWords free isStar isStatic rfl) othersLeaves⟩
  rwa [List.append_assoc, List.singleton_append]

theorem exists_tokens_first {tokens : List Lexeme} (apart : FallsApart tokens) {leading : Trivia}
    (closed : opensLine leading.comments = false) (bareNext : next.hasLeading = false)
    (areLeaves : List.Forall₂ IsLeafOf tokens
      (next.leavesBehind ([leading].filter fun front => !front.isEmpty) ++ leaves)) :
    ∃ others, FallsApart others ∧ List.Forall₂ IsLeafOf others
      ((laidImport "" isStatic first (words ++ star)).leavesBehind
        ([leading].filter fun front => !front.isEmpty) ++ (new.leaves ++ leaves)) := by
  have areSegments := isSegment_of_mem areWords isStar
  rcases leavesBehind_of_lifted lifted with ⟨kind, text, others, own, -⟩
  rw [own, ownFront_of_not_hasLeading bareNext, List.append_nil] at areLeaves
  cases areLeaves with
  | @cons token _ tokens _ isLeaf behind =>
      have inFront := isLeaf.leading_eq
      subst inFront
      have cut := apart.cut_leading isLeaf.not_stray
      rw [charactersOf_cons] at cut
      have freed : FallsApart ({ token with leading := .empty } :: tokens) :=
        apart.exchange_leading isLeaf.not_stray fun rest cut => by
          rcases cutTrivia_behind cut with ⟨stops, noComment, -⟩
          exact cutTrivia_spaces (fun _ absent => absurd absent List.not_mem_nil) stops noComment
      have freedLeaves : List.Forall₂ IsLeafOf ({ token with leading := .empty } :: tokens)
          (next.leaves ++ leaves) := by
        rw [Node.leaves, own, ownFront_of_not_hasLeading bareNext]
        exact .cons (isLeaf.withLeading .empty) behind
      rcases exists_respaced lifted respaced freed freedLeaves with
        ⟨others, othersApart, othersLeaves, -⟩
      refine ⟨importLexemes token.leading isStatic first (words ++ star) ++ others, ?_,
        List.rel_append (leaves_import areWords free isStar isStatic (List.append_nil _))
          othersLeaves⟩
      refine (fallsApart_import isStatic areSegments othersApart).exchange_leading (by decide)
        fun rest alone => ?_
      rcases cutTrivia_behind alone with ⟨stops, noComment, -⟩
      exact cutTrivia_exchange (fun _ => noComment) (.inr stops) (fun _ _ => closed) cut

end

/-! ## The file -/

def importLeading : List Node → String
  | [] => ""
  | previous :: _ => if previous.is .importDecl then "\n" else "\n\n"

theorem isSpace_importLeading (before : List Node) :
    ∀ c ∈ (importLeading before).toList, Trivia.isSpace c = true := by
  cases before with
  | nil => simp [importLeading]
  | cons previous before =>
      rw [importLeading]
      split <;> simp [Trivia.isSpace]

theorem leading_importDecl (name : String) (isStatic : Bool)
    (before : List Node) (indent : String) :
    Layout.leading (Made.importDecl name isStatic) (some ⟨.sourceFile, before⟩) indent =
      .ok (importLeading before) := by
  cases before <;> rfl

/-- The parts of a file, and where an import is put between them. -/
structure Opened (text : String) (file : Node) (front back : List Lexeme) (heads : List Node)
    (next new : Node) (rest : List Node) : Prop where
  tokens : lexemes text = front ++ back
  bare : file.bare = (Node.branch .sourceFile (heads ++ next :: rest)).bare
  children : file.children = heads ++ next :: rest
  length : front.length = (heads.flatMap Node.leaves).length
  ends : heads ≠ [] → EndsIn ";" front
  respaced : RespacedNode next new
  placed : ∀ made, AddImport.place made file.children = heads ++ made :: new :: rest
  extended : ∀ {made : List Lexeme} {node : Node},
    (∀ other, Reads takeLexeme Rule.body (.rule .importDecl)
      (made ++ other) (some ([node], other))) →
    ∃ root, Reads takeLexeme Rule.body (.rule .compilationUnit) (front ++ (made ++ back))
        (some ([root], [])) ∧
      root.bare = (Node.branch .sourceFile (heads ++ node :: next :: rest)).bare

section

variable {text : String} {read file : Node} (parsed : parse text = .ok read)
  (same : file.content = read.content)

include parsed same

theorem exists_parts : ∃ front back packages imports behind, lexemes text = front ++ back ∧
    file.bare = (Node.branch .sourceFile (packages ++ imports ++ behind)).bare ∧
    file.children = packages ++ imports ++ behind ∧
    FileParts front back packages imports behind := by
  rcases reads_of_parse parsed with ⟨root, reads, rootBare⟩
  rcases exists_fileParts reads with ⟨front, back, packages, imports, behind, tokens, rfl, parts⟩
  have bare : file.bare = (Node.branch .sourceFile (packages ++ imports ++ behind)).bare := by
    rw [← bare_content, same, bare_content, rootBare, Grammar.grow, bare_withLeading]
  have children := congrArg Node.children bare
  rw [children_bare, children_bare] at children
  rcases List.map_eq_append_iff.1 ((children.trans List.map_append)) with
    ⟨heads, behind', equal, sameHeads, sameBehind⟩
  rcases List.map_eq_append_iff.1 (sameHeads.trans List.map_append) with
    ⟨packages', imports', rfl, samePackages, sameImports⟩
  refine ⟨front, back, packages', imports', behind', tokens, ?_, equal,
    parts.of_bare samePackages sameImports sameBehind⟩
  simp only [bare, Node.branch, bare_mk, List.map_append, samePackages, sameImports, sameBehind]

theorem exists_opened : ∃ front back heads next new rest,
    Opened text file front back heads next new rest := by
  rcases exists_parts parsed same with
    ⟨front, back, packages, imports, behind, tokens, bare, equal, parts⟩
  rcases List.exists_cons_of_ne_nil parts.nonempty with ⟨next, rest, rfl⟩
  have placed (made : Node) :=
    AddImport.place_eq made parts.onePackage parts.areImports parts.areOthers
  refine ⟨front, back, packages ++ imports, next,
    if imports = [] then AddImport.separate next else next, rest, tokens, bare, equal, parts.length,
    parts.ends, ?_, fun made => ?_, parts.extended⟩
  · split
    · exact AddImport.respaced_separate next
    · exact .inl rfl
  · rw [equal, placed]
    split <;> rfl

end

/-- A file with an import as it is printed. -/
def laidFile (file : Node) (heads : List Node) (isStatic : Bool)
    (first : String) (more : List String)
    (behind : List Node) : Node :=
  ⟨file.toNodeHead,
    heads ++ laidImport (importLeading heads.reverse) isStatic first more :: behind⟩

section

variable {text : String} {read file : Node} (parsed : parse text = .ok read)
  (same : file.content = read.content) {front back : List Lexeme} {heads rest : List Node}
  {next new : Node} (opened : Opened text file front back heads next new rest)
  {name first : String} {words star : List String} (isStatic : Bool)
  (split : Text.splitString '.' name = first :: (words ++ star))
  (areWords : ∀ word ∈ first :: words, isWord word.toList = true)
  (isStar : star = [] ∨ star = ["*"])

include opened in
theorem Opened.eq_mk : file = ⟨file.toNodeHead, heads ++ next :: rest⟩ := by
  rw [← opened.children]
  cases file
  rfl

include opened in
theorem Opened.bareHead_eq : bareHead file.toNodeHead =
    bareHead (Node.branch .sourceFile []).toNodeHead := by
  have bare := opened.bare
  rw [opened.eq_mk, bare_mk, Node.branch, bare_mk] at bare
  exact congrArg Node.toNodeHead bare

include parsed same in
theorem explicit_of_content : file.Everywhere Explicit :=
  everywhere_explicit_of_content same (explicit_of_parse parsed)

include parsed same opened split in
/-- The file with the import is printed with all that the layout adds. -/
theorem prints_with_import {made : Node}
    (isMade : made.content = (Made.importDecl name isStatic).content)
    (faithful : (file.withChildren (heads ++ made :: new :: rest)).Everywhere Faithful) :
    (file.withChildren (heads ++ made :: new :: rest)).print =
        .ok (laidFile file heads isStatic first (words ++ star) (new :: rest)).written ∧
      ∃ resolved, (file.withChildren (heads ++ made :: new :: rest)).resolveFormatting =
        .ok resolved ∧
        resolved.content =
          (laidFile file heads isStatic first (words ++ star) (new :: rest)).hoist.content := by
  have explicit := explicit_of_content parsed same
  have inside : ∀ node ∈ heads ++ next :: rest, node.Everywhere Explicit :=
    fun node member => explicit.child (opened.children ▸ member)
  rw [List.forall_mem_append, List.forall_mem_cons] at inside
  rcases inside with ⟨headsExplicit, nextExplicit, restExplicit⟩
  have behindExplicit : ∀ node ∈ new :: rest, node.Everywhere Explicit :=
    List.forall_mem_cons.2 ⟨opened.respaced.explicit nextExplicit, restExplicit⟩
  have head := opened.bareHead_eq
  have isFile : file.kind = .sourceFile := congrArg NodeHead.kind head
  have noText : file.text = none := congrArg NodeHead.text head
  have noTrailing : file.trailing = .empty := congrArg NodeHead.trailing head
  rcases Option.isSome_iff_exists.1 explicit.here.formatted with ⟨leading, isLeading⟩
  have content : (file.withChildren (heads ++ made :: new :: rest)).content =
      ⟨headContent file.toNodeHead,
        heads.map content ++ Made.importDecl name isStatic :: (new :: rest).map content⟩ := by
    rw [content_withChildren, List.map_append, List.map_cons,
      isMade, content_importDecl split isStatic]
    rw [opened.eq_mk, content_mk]
    rfl
  have sameLeading : importLeading (heads.map Node.content).reverse =
      importLeading heads.reverse := by
    rw [← List.map_reverse]
    cases heads.reverse with
    | nil => rfl
    | cons previous before => rw [List.map_cons, importLeading, importLeading, is_content]
  have laid : (laidFile file heads isStatic first (words ++ star) (new :: rest)).content =
      ⟨headContent file.toNodeHead, heads.map Node.content ++
        laidImport (importLeading (heads.map Node.content).reverse) isStatic first
          (words ++ star) ::
          (new :: rest).map Node.content⟩ := by
    rw [laidFile, content_mk, List.map_append, List.map_cons, content_laidImport, sameLeading]
  have laysOut : Printer.LaysOut ⟨"", []⟩ none
      (file.withChildren (heads ++ made :: new :: rest)).content
      (laidFile file heads isStatic first (words ++ star) (new :: rest)).content := by
    rw [content, laid]
    refine .of_children isLeading rfl noText noTrailing (by simp) ?_
    rw [show (headContent file.toNodeHead).kind = .sourceFile from isFile]
    have noBlock : Kind.sourceFile ≠ .block := by decide
    refine .explicit_append headsExplicit (fun isBlock => absurd isBlock noBlock)
      (.cons_of_ne noBlock ?_ (.of_explicit behindExplicit fun isBlock => absurd isBlock noBlock))
    rw [List.append_nil]
    exact laysOut_import split _ isStatic (leading_importDecl _ _ _ _)
  have printed := prints_of_laysOut faithful laysOut
  rwa [written_content, content_hoist, content_content, ← content_hoist] at printed

include opened in
theorem Opened.bare_laidFile (leading : Trivia) :
    (laidFile file heads isStatic first (words ++ star) (new :: rest)).bare =
      (Node.branch .sourceFile (heads ++
        importRead leading isStatic first (words ++ star) :: next :: rest)).bare := by
  rw [laidFile, Node.branch, bare_mk, bare_mk, opened.bareHead_eq]
  simp [opened.respaced.bare_eq, bare_importRead leading (importLeading heads.reverse)]
  rfl

include opened split in
theorem Opened.bare_withChildren {made : Node}
    (isMade : made.content = (Made.importDecl name isStatic).content) :
    (file.withChildren (heads ++ made :: new :: rest)).bare =
      (laidFile file heads isStatic first (words ++ star) (new :: rest)).bare := by
  have same : made.bare =
      (laidImport (importLeading heads.reverse) isStatic first (words ++ star)).bare := by
    rw [bare_import split, ← bare_content, isMade, bare_content]
  rw [laidFile, opened.eq_mk, withChildren, bare_mk, bare_mk]
  simp [same]
  rfl

include parsed same opened areWords isStar in
theorem exists_tokens_with_import (free : ∀ word ∈ first :: words, isReserved word = false)
    (closed : opensLine file.leadingOrEmpty.comments = false) :
    ∃ others, FallsApart others ∧ List.Forall₂ IsLeafOf others
      (laidFile file heads isStatic first (words ++ star) (new :: rest)).leaves := by
  have apart := opened.tokens ▸ fallsApart_lexemes parsed
  have areLeaves : List.Forall₂ IsLeafOf (front ++ back) file.leaves := by
    rw [← opened.tokens, ← leaves_content, same, leaves_content]
    exact leaves_of_parse parsed
  have lifted := everywhere_lifted_of_content same (lifted_of_parse parsed)
  have nextLifted : next.Everywhere Lifted := lifted.child (by rw [opened.children]; simp)
  have length := opened.length
  rw [opened.eq_mk, Node.leaves] at areLeaves
  rw [laidFile, Node.leaves]
  by_cases none : heads = []
  · subst none
    have bareNext : next.hasLeading = false := lifted.here next (by rw [opened.children]; rfl)
    have noFront : front = [] := List.eq_nil_of_length_eq_zero length
    subst noFront
    exact exists_tokens_first areWords free isStar isStatic nextLifted opened.respaced apart closed
      bareNext areLeaves
  · rw [leavesBehind_append _ _ none, List.flatMap_cons] at areLeaves
    rw [leavesBehind_append _ _ none, List.flatMap_cons, List.flatMap_cons]
    have split : front.length = (leavesOfAll ([] ++ ownFront file.toNodeHead) heads).length := by
      rw [length, ← leavesOfAll_nil, length_leavesOfAll_eq rfl]
    have frontLeaves := List.forall₂_take_append _ _ _ areLeaves
    have backLeaves := List.forall₂_drop_append _ _ _ areLeaves
    rw [← split, List.take_left] at frontLeaves
    rw [← split, List.drop_left] at backLeaves
    rcases exists_tokens_behind areWords free isStar isStatic nextLifted opened.respaced apart
      (opened.ends none) (isSpace_importLeading heads.reverse) backLeaves with
        ⟨others, again, leaves⟩
    exact ⟨front ++ others, again, List.rel_append frontLeaves leaves⟩

include parsed same opened areWords isStar in
/-- It is read again as the tree that was printed. -/
theorem parse_with_import (free : ∀ word ∈ first :: words, isReserved word = false)
    (closed : opensLine file.leadingOrEmpty.comments = false) :
    ∃ reparsed, parse (laidFile file heads isStatic first (words ++ star) (new :: rest)).written =
        .ok reparsed ∧ reparsed.content =
          (laidFile file heads isStatic first (words ++ star) (new :: rest)).hoist.content := by
  rcases exists_tokens_with_import parsed same opened isStatic areWords isStar free closed with
    ⟨others, apart, areLeaves⟩
  rcases opened.extended (reads_import areWords free isStar .empty isStatic) with
    ⟨root, reads, bare⟩
  have formatted : (laidFile file heads isStatic first (words ++ star) (new :: rest)).Everywhere
      Formatted := by
    have explicit := explicit_of_content parsed same
    have inside : ∀ node ∈ heads ++ next :: rest, node.Everywhere Explicit :=
      fun node member => explicit.child (opened.children ▸ member)
    rw [List.forall_mem_append, List.forall_mem_cons] at inside
    refine everywhere_iff.2 ⟨explicit.here.formatted, List.forall_mem_append.2
      ⟨fun node member => (inside.1 node member).mono fun _ => Explicit.formatted,
        List.forall_mem_cons.2 ⟨formatted_import _ isStatic, List.forall_mem_cons.2 ⟨?_, ?_⟩⟩⟩⟩
    · exact (opened.respaced.explicit inside.2.1).mono fun _ => Explicit.formatted
    · exact fun node member => (inside.2.2 node member).mono fun _ => Explicit.formatted
  have plain : ∀ token ∈ front ++ (importLexemes .empty isStatic first (words ++ star) ++ back),
      token.Plain := by
    have read := plain_of_parse parsed
    rw [opened.tokens, List.forall_mem_append] at read
    have insertable : Insertable (importLexemes .empty isStatic first (words ++ star)) :=
      insertable_import isStatic (isSegment_of_mem areWords isStar)
        fun _ absent => absurd absent List.not_mem_nil
    have importLeaves : List.Forall₂ IsLeafOf (importLexemes .empty isStatic first (words ++ star))
        (laidImport "" isStatic first (words ++ star)).leaves :=
      leaves_import areWords free isStar isStatic rfl
    exact List.forall_mem_append.2 ⟨read.1, List.forall_mem_append.2
      ⟨insertable.plain importLeaves parsed, read.2⟩⟩
  exact parse_written apart reads plain
    (bare.trans (opened.bare_laidFile isStatic .empty).symm) formatted areLeaves

include areWords in
/-- Only what is free of reserved words and of open comments is read so. -/
theorem free_of_parse_with_import {reparsed : Node}
    (accepted : parse (laidFile file heads isStatic first (words ++ star) (new :: rest)).written =
      .ok reparsed)
    (content : reparsed.content =
      (laidFile file heads isStatic first (words ++ star) (new :: rest)).hoist.content) :
    (∀ word ∈ first :: words, isReserved word = false) ∧
      opensLine file.leadingOrEmpty.comments = false := by
  have areLeaves := leaves_of_parse accepted
  have apart := fallsApart_lexemes accepted
  generalize lexemes _ = tokens at areLeaves apart
  rw [← leaves_content, content, leaves_content, leaves_hoist, Node.leaves, laidFile] at areLeaves
  constructor
  · intro word member
    have inName : word ∈ first :: (words ++ star) := by
      rw [← List.cons_append]
      exact List.mem_append_left _ member
    have inFile : laidImport (importLeading heads.reverse) isStatic first (words ++ star) ∈
        heads ++ laidImport (importLeading heads.reverse) isStatic first
          (words ++ star) :: new :: rest :=
      List.mem_append_right _ List.mem_cons_self
    rcases exists_leavesBehind_subset inFile [] with ⟨fronts, subset⟩
    rcases exists_leaf_of_segment _ isStatic inName fronts with ⟨leaf, inside, kind, text⟩
    rcases exists_isLeafOf areLeaves (subset inside) with ⟨token, -, isLeaf⟩
    rw [segmentKind, if_neg (ne_star_of_isWord (areWords word member))] at kind
    rw [← Option.some.inj (isLeaf.text.symm.trans text)]
    exact isLeaf.not_isReserved kind
  · have two : ∃ front behind more, heads ++ laidImport (importLeading heads.reverse) isStatic first
        (words ++ star) :: new :: rest = front :: behind :: more := by
      rcases heads with - | ⟨front, - | ⟨behind, more⟩⟩ <;> exact ⟨_, _, _, rfl⟩
    rcases two with ⟨front, behind, more, equal⟩
    rcases exists_leavesBehind front ([] ++ ownFront file.toNodeHead) with
      ⟨inner, kind, text, frontLeaves, own⟩
    rcases exists_leavesBehind behind [] with ⟨_, _, _, behindLeaves, others⟩
    rw [equal, leavesBehind_cons, own, List.flatMap_cons, Node.leaves, others] at areLeaves
    cases inFront : file.leadingOrEmpty.isEmpty with
    | true =>
        rw [Trivia.eq_empty_of_isEmpty inFront]
        rfl
    | false =>
        have ownFile : ownFront file.toNodeHead = [file.leadingOrEmpty] :=
          ownFront_of_hasLeading (by rw [hasLeading, inFront]; rfl)
        cases areLeaves with
        | @cons token _ tokens _ isLeaf later =>
            cases tokens with
            | nil => simp at later
            | cons next tokens =>
                have closed := apart.closed isLeaf.not_stray
                have fronts := isLeaf.fronts
                rw [ownFile, List.filter_cons, List.filter_nil] at fronts
                split at fronts
                · rwa [(List.cons.inj fronts).1]
                · cases fronts

end

end Java

namespace AddImport

theorem walk_of_content {edit : AddImport} {limits : WalkLimits} (time : limits.expired = false)
    {text : String} {read file : Node} (parsed : Java.parse text = .ok read)
    (same : file.content = read.content) {session : Session} (going : session.cancelled = false)
    (visible : edit.isVisible read = true) :
    walk edit.visitor limits file session = (.ok none, { session with board := .empty }) := by
  refine walk_of_visible time ?_ going (by rw [isVisible_of_content edit same, visible])
  rw [← kind_content, same, kind_content, Java.kind_of_parse parsed]

/-- Adding an import to a file always gives a text. It is read back as the tree that was
printed, with all its formatting explicit, and in that tree what was to be imported can be seen,
so that nothing is added any more. But if the file could not see it before, that holds only if
no part of the name is a reserved word, and if the file does not begin with a line comment that
goes on to its end. -/
theorem adding_reads_back_iff {settings : Settings} {edit : AddImport}
    (accepted : ofSettings settings = .ok edit) {text : String} {read : Node}
    (parsed : Java.parse text = .ok read) (first : Nat) {limits : WalkLimits}
    (time : limits.expired = false) {session : Session} (going : session.cancelled = false) :
    ∃ changed after printed resolved,
      walk edit.visitor limits (read.number first).1 session = (.ok changed, after) ∧
      (changed.getD (read.number first).1).print = .ok printed ∧
      (changed.getD (read.number first).1).resolveFormatting = .ok resolved ∧
      ((∃ reparsed, Java.parse printed = .ok reparsed ∧ reparsed.contentEq resolved = true ∧
          (edit.isImplicitlyVisible reparsed = true ∨
            ∃ declaration ∈ reparsed.childrenOfKind .importDecl,
              edit.isCoveredBy declaration = true) ∧
          ∀ next again, again.cancelled = false →
            (walk edit.visitor limits (reparsed.number next).1 again).1 = .ok none) ↔
        edit.isVisible read = true ∨
          (∀ segment ∈ Text.splitString '.' edit.imported, Java.isReserved segment = false) ∧
            Java.opensLine read.leadingOrEmpty.comments = false) := by
  have same : (read.number first).1.content = read.content := content_number read first
  have reachable : Reachable (read.number first).1 := .number first (.java parsed)
  have readsBack {printed : String} {resolved reparsed : Node}
      (again : Java.parse printed = .ok reparsed)
      (content : reparsed.content = resolved.content) (visible : edit.isVisible reparsed = true) :
      ∃ reparsed, Java.parse printed = .ok reparsed ∧ reparsed.contentEq resolved = true ∧
        (edit.isImplicitlyVisible reparsed = true ∨
          ∃ declaration ∈ reparsed.childrenOfKind .importDecl,
            edit.isCoveredBy declaration = true) ∧
        ∀ next again, again.cancelled = false →
          (walk edit.visitor limits (reparsed.number next).1 again).1 = .ok none := by
    refine ⟨reparsed, again, contentEq_iff_content.2 content, (edit.isVisible_iff _).1 visible,
      fun next session going => ?_⟩
    rw [walk_of_content time again (content_number reparsed next) going visible]
  cases visible : edit.isVisible read with
  | true =>
      have faithful := reachable.everywhere_faithful fun _ absent => absent.elim
      rcases prints_of_content faithful (Java.explicit_of_content parsed same) rfl with
        ⟨printed, resolved, resolves, content⟩
      have written : (read.number first).1.written = text := by
        rw [← written_content, same, written_content, (Java.parse_readFrom parsed).written]
      have unchanged : read.content = resolved.content := by
        rw [content, content_hoist, same, ← content_hoist]
        exact Java.content_of_parse parsed rfl (Java.formatted_of_parse parsed)
          (Java.leaves_of_parse parsed)
      exact ⟨none, _, text, resolved, walk_of_content time parsed same going visible,
        written ▸ printed, resolves, iff_of_true (readsBack parsed unchanged visible) (.inl rfl)⟩
  | false =>
      rcases exists_segments (isQualified_of_ofSettings accepted) with
        ⟨start, words, star, split, areWords, isStar⟩
      rcases Java.exists_opened parsed same with ⟨front, back, heads, next, new, rest, opened⟩
      have hidden : edit.isVisible (read.number first).1 = false := by
        rw [isVisible_of_content edit same, visible]
      have isFile : (read.number first).1.kind = .sourceFile := by
        rw [← kind_content, same, kind_content, Java.kind_of_parse parsed]
      have walked := walk_of_not_visible time isFile going hidden
      have reached := edit.builds.reachable reachable (congrArg Prod.fst walked)
      have seen := edit.isVisible_place (read.number first).1 session.nextId
      have isMade : (edit.declaration session.nextId).content =
          (Java.Made.importDecl edit.imported edit.isStatic).content := content_number _ _
      rw [opened.placed] at walked reached seen
      have faithful := reached.everywhere_faithful fun _ absent => absent.elim
      rcases Java.prints_with_import parsed same opened edit.isStatic split isMade faithful with
        ⟨printed, resolved, resolves, content⟩
      refine ⟨_, _, _, resolved, walked, printed, resolves, ?_⟩
      have leading : (read.number first).1.leadingOrEmpty = read.leadingOrEmpty := by
        rw [← leadingOrEmpty_content, same, leadingOrEmpty_content]
      rw [split, ← leading]
      constructor
      · rintro ⟨reparsed, again, equal, -⟩
        rcases Java.free_of_parse_with_import edit.isStatic areWords again
          ((contentEq_iff_content.1 equal).trans content) with ⟨free, closed⟩
        refine .inr ⟨?_, closed⟩
        rw [← List.cons_append, List.forall_mem_append]
        refine ⟨free, fun segment member => ?_⟩
        rcases isStar with rfl | rfl
        · cases member
        · rw [List.mem_singleton.1 member]
          decide
      · rintro (impossible | ⟨free, closed⟩)
        · cases impossible
        · rw [← List.cons_append, List.forall_mem_append] at free
          rcases Java.parse_with_import parsed same opened edit.isStatic
            areWords isStar free.1 closed with
            ⟨reparsed, again, reparsedContent⟩
          refine readsBack again (reparsedContent.trans content.symm) ?_
          rw [← isVisible_bare, ← bare_content, reparsedContent, bare_content, bare_hoist,
            ← opened.bare_withChildren edit.isStatic split isMade, isVisible_bare]
          exact seen

/-- Between a package and a class an import can be added; behind a comment that is all there is,
without a line break, it becomes part of that comment. -/
theorem adding_reads_back_iff_of_header :
    (∃ read changed after printed resolved,
      Java.parse "package a;class X\x7b\x7d" = .ok read ∧
      walk (visitor ⟨"java.util.List", false⟩) .none (read.number 1).1 (.start 100 false) =
        (.ok changed, after) ∧
      (changed.getD (read.number 1).1).print = .ok printed ∧
      (changed.getD (read.number 1).1).resolveFormatting = .ok resolved ∧
      ∃ reparsed, Java.parse printed = .ok reparsed ∧ reparsed.contentEq resolved = true ∧
        ∀ next again, again.cancelled = false →
          (walk (visitor ⟨"java.util.List", false⟩) .none (reparsed.number next).1 again).1 =
            .ok none) ∧
    ∃ read changed after printed resolved, Java.parse "// header" = .ok read ∧
      walk (visitor ⟨"java.util.List", false⟩) .none (read.number 1).1 (.start 100 false) =
        (.ok changed, after) ∧
      (changed.getD (read.number 1).1).print = .ok printed ∧
      (changed.getD (read.number 1).1).resolveFormatting = .ok resolved ∧
      ¬∃ reparsed, Java.parse printed = .ok reparsed ∧ reparsed.contentEq resolved = true ∧
        (isImplicitlyVisible ⟨"java.util.List", false⟩ reparsed = true ∨
          ∃ declaration ∈ reparsed.childrenOfKind .importDecl,
            isCoveredBy ⟨"java.util.List", false⟩ declaration = true) ∧
        ∀ next again, again.cancelled = false →
          (walk (visitor ⟨"java.util.List", false⟩) .none (reparsed.number next).1 again).1 =
            .ok none := by
  have accepted : ofSettings (.ofList name [("typeName", .string "java.util.List")]) =
      .ok ⟨"java.util.List", false⟩ := by
    have evaluated : (ofSettings (.ofList name [("typeName", .string "java.util.List")])).toOption =
        some ⟨"java.util.List", false⟩ := by decide
    cases outcome : ofSettings (.ofList name [("typeName", .string "java.util.List")]) with
    | error fault =>
        rw [outcome] at evaluated
        cases evaluated
    | ok edit =>
        rw [outcome] at evaluated
        exact congrArg Except.ok (Option.some.inj evaluated)
  have time : WalkLimits.none.expired = false := rfl
  have going : (Session.start 100 false).cancelled = false := rfl
  constructor
  · have evaluated : (Java.parse "package a;class X\x7b\x7d").toOption.map (fun read =>
        Java.opensLine read.leadingOrEmpty.comments) = some false := by decide +kernel
    cases parsed : Java.parse "package a;class X\x7b\x7d" with
    | error error =>
        rw [parsed] at evaluated
        cases evaluated
    | ok read =>
        rw [parsed] at evaluated
        rcases adding_reads_back_iff accepted parsed 1 time going with
          ⟨changed, after, printed, resolved, walked, prints, resolves, readsBack⟩
        rcases readsBack.2 (.inr ⟨by decide, Option.some.inj evaluated⟩) with
          ⟨reparsed, again, equal, -, settled⟩
        exact ⟨read, changed, after, printed, resolved, rfl,
          walked, prints, resolves, reparsed, again, equal, settled⟩
  · have evaluated : (Java.parse "// header").toOption.map (fun read =>
        (isVisible ⟨"java.util.List", false⟩ read, Java.opensLine read.leadingOrEmpty.comments)) =
          some (false, true) := by decide +kernel
    cases parsed : Java.parse "// header" with
    | error error =>
        rw [parsed] at evaluated
        cases evaluated
    | ok read =>
        rw [parsed] at evaluated
        rcases Prod.mk.inj (Option.some.inj evaluated) with ⟨hidden, open_⟩
        rcases adding_reads_back_iff accepted parsed 1 time going with
          ⟨changed, after, printed, resolved, walked, prints, resolves, readsBack⟩
        refine ⟨read, changed, after, printed, resolved, rfl, walked, prints, resolves, ?_⟩
        rw [readsBack, hidden, open_]
        simp

end AddImport

end Verbatim
