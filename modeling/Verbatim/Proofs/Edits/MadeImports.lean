import Verbatim.Proofs.Edits.Adding
import Verbatim.Proofs.Text.Pieces

/-! Files that are made of imports only. The words of their names, the layout in front of them
and the dots in between are chosen without a look at the grammar; and still such a file is
printed as a text that is read as the tree that was printed, however many imports there are. -/

namespace Verbatim

open Node

namespace AddImport

/-- A name that is accepted for an import and none of whose parts is reserved. -/
structure Importable (name : String) : Prop where
  accepted : ∃ settings edit, ofSettings settings = .ok edit ∧ edit.imported = name
  free : ∀ segment ∈ Text.splitString '.' name, Java.isReserved segment = false

/-- A made file of imports. -/
def fileOf (imports : List AddImport) : Node :=
  .branch .sourceFile (imports.map made ++ [.token .endOfFile ""])

end AddImport

namespace Java

/-! ## Imports in parts -/

/-- An import whose name was taken apart into words and maybe a star. -/
structure SplitImport where
  edit : AddImport
  first : String
  words : List String
  star : List String
  split : Text.splitString '.' edit.imported = first :: (words ++ star)
  areWords : ∀ word ∈ first :: words, isWord word.toList = true
  free : ∀ word ∈ first :: words, isReserved word = false
  isStar : star = [] ∨ star = ["*"]

theorem exists_splitImport {edit : AddImport} (importable : AddImport.Importable edit.imported) :
    ∃ parts : SplitImport, parts.edit = edit := by
  rcases importable.accepted with ⟨settings, asked, accepted, named⟩
  rcases AddImport.exists_segments (AddImport.isQualified_of_ofSettings accepted) with
    ⟨first, words, star, split, areWords, isStar⟩
  rw [named] at split
  have free := importable.free
  rw [split, ← List.cons_append, List.forall_mem_append] at free
  exact ⟨⟨edit, first, words, star, split, areWords, free.1, isStar⟩, rfl⟩

theorem exists_splitImports {imports : List AddImport}
    (importable : ∀ edit ∈ imports, AddImport.Importable edit.imported) :
    ∃ all : List SplitImport, all.map SplitImport.edit = imports := by
  induction imports with
  | nil => exact ⟨[], rfl⟩
  | cons edit imports induction =>
      rw [List.forall_mem_cons] at importable
      rcases exists_splitImport importable.1 with ⟨parts, rfl⟩
      rcases induction importable.2 with ⟨all, rfl⟩
      exact ⟨parts :: all, rfl⟩

namespace SplitImport

variable (parts : SplitImport) (leading : String)

def laid : Node := laidImport leading parts.edit.isStatic parts.first (parts.words ++ parts.star)

def tokens : List Lexeme :=
  importLexemes (.ofWhitespace leading) parts.edit.isStatic parts.first (parts.words ++ parts.star)

def read : Node :=
  importRead (.ofWhitespace leading) parts.edit.isStatic parts.first (parts.words ++ parts.star)

theorem bare_read : (parts.read leading).bare = (parts.laid leading).bare := bare_importRead _ _ _ _

theorem bare_laid : (parts.laid leading).bare = parts.edit.made.bare := bare_import parts.split _ _

theorem insertable (space : ∀ c ∈ leading.toList, Trivia.isSpace c = true) :
    Insertable (parts.tokens leading) :=
  insertable_import _ (isSegment_of_mem parts.areWords parts.isStar) space

theorem reads (other : List Lexeme) : Reads takeLexeme Rule.body (.rule .importDecl)
    (parts.tokens leading ++ other) (some ([parts.read leading], other)) :=
  reads_import parts.areWords parts.free parts.isStar _ _ other

theorem leaves_laid : List.Forall₂ IsLeafOf (parts.tokens leading) (parts.laid leading).leaves :=
  leaves_import parts.areWords parts.free parts.isStar _ rfl

theorem laysOut {page : Printer.Page} {place : Option Layout.Place}
    (decided : Layout.leading parts.edit.made place page.blockIndent = .ok leading) :
    Printer.LaysOut page place parts.edit.made (parts.laid leading) :=
  laysOut_import parts.split leading parts.edit.isStatic decided

end SplitImport

/-! ## Their texts -/

theorem writtenOfAll_unformatted {nodes : List Node}
    (tokens : ∀ node ∈ nodes, ∃ kind text, node = Node.token kind text) :
    writtenOfAll (nodes.map (·.withLeading .empty)) = tokensTextOfAll nodes := by
  induction nodes with
  | nil => rfl
  | cons node nodes induction =>
      rw [List.forall_mem_cons] at tokens
      rcases tokens with ⟨⟨kind, text, rfl⟩, others⟩
      rw [List.map_cons, writtenOfAll, tokensTextOfAll, induction others]
      simp [Node.token, withLeading, written, tokensText, writtenOfAll, tokensTextOfAll]

theorem written_laidName {name first : String} {more : List String}
    (split : Text.splitString '.' name = first :: more) :
    (laidName first more).written = " " ++ name := by
  have named := AddImport.tokensText_qualifiedName name
  rw [qualifiedName_eq split, Node.branch, tokensText] at named
  rw [show (none : Option String).getD "" = "" from rfl, String.empty_append] at named
  have spelled : writtenOfAll ((Node.token (segmentKind first) first :: dottedNodes more).map
      (·.withLeading .empty)) = name := by
    refine named ▸ writtenOfAll_unformatted fun node member => ?_
    rcases isToken_of_mem member with ⟨kind, text, same, -⟩
    exact ⟨kind, text, same⟩
  rw [laidName, Node.branch, withLeading, written, spelled]
  simp [Trivia.text_ofWhitespace]

theorem SplitImport.written_laid (parts : SplitImport) (leading : String) :
    (parts.laid leading).written = leading ++ ("import " ++
      ((if parts.edit.isStatic then "static " else "") ++ (parts.edit.imported ++ ";"))) := by
  have named := written_laidName parts.split
  rw [SplitImport.laid, laidImport]
  cases parts.edit.isStatic <;>
    simp [Node.branch, Node.token, withLeading, written, writtenOfAll,
      named, Trivia.text_ofWhitespace, ← String.append_assoc]

theorem SplitImport.noSpace (parts : SplitImport) :
    ∀ c ∈ parts.edit.imported.toList, Trivia.isSpace c = false := by
  have areSegments : ∀ segment ∈ Text.splitString '.' parts.edit.imported, IsSegment segment :=
    parts.split ▸ isSegment_of_mem parts.areWords parts.isStar
  intro c member
  rw [← Text.joinWith_splitAt '.' parts.edit.imported.toList] at member
  rcases Text.of_mem_joinWith member with rfl | ⟨piece, isPiece, member⟩
  · rfl
  · rw [← Bool.not_eq_true]
    intro space
    rcases areSegments _ (List.mem_map_of_mem isPiece) with star | word
    · rw [← String.toList_ofList (l := piece), star] at member
      rw [List.mem_singleton.1 member] at space
      exact absurd space (by decide)
    · rcases isWord_iff.1 word with ⟨_, _, -, -, each⟩
      rw [String.toList_ofList] at each
      exact absurd (each c member) (Bool.eq_false_iff.1 (not_isWordPart_of_isSpace space))

/-! ## Files -/

/-- Imports with the white space in front of them. -/
abbrev PlacedImports : Type := List (String × SplitImport)

namespace PlacedImports

def laid (placed : PlacedImports) : Node :=
  (Node.branch .sourceFile (placed.map (fun place => place.2.laid place.1) ++
    [(Node.token .endOfFile "").withLeading .empty])).withLeading .empty

def endToken : Lexeme := .made "" .endOfText ""

def tokens (placed : PlacedImports) : List Lexeme :=
  placed.flatMap (fun place => place.2.tokens place.1) ++ [endToken]

def read (placed : PlacedImports) : Node :=
  Grammar.grow .sourceFile (placed.map (fun place => place.2.read place.1) ++
    [endToken.node .endOfFile])

theorem fallsApart_end : FallsApart [endToken] := by
  have nothing : endToken.leading.text = "" := Trivia.text_ofWhitespace ""
  have cut : CutInto endToken.leading.text.toList [endToken] :=
    .singleton rfl rfl (by rw [nothing]; decide +kernel)
  rwa [nothing] at cut

theorem isLeafOf_end : IsLeafOf endToken ⟨[], .endOfFile, some ""⟩ :=
  ⟨rfl, rfl, .endOfText, rfl⟩

variable (placed : PlacedImports)

theorem fallsApart (space : ∀ place ∈ placed, ∀ c ∈ place.1.toList, Trivia.isSpace c = true) :
    FallsApart placed.tokens := by
  induction placed with
  | nil => exact fallsApart_end
  | cons place placed induction =>
      rw [List.forall_mem_cons] at space
      rw [tokens, List.flatMap_cons, List.append_assoc]
      exact (place.2.insertable place.1 space.1).apart (induction space.2)

theorem leaves_laid : List.Forall₂ IsLeafOf placed.tokens placed.laid.leaves := by
  have inside : placed.laid.leaves =
      placed.flatMap (fun place => (place.2.laid place.1).leaves) ++
        [⟨[], .endOfFile, some ""⟩] := by
    rw [laid, leaves_branch_unformatted (by simp), List.flatMap_append, List.flatMap_map]
    rfl
  rw [inside, tokens]
  refine List.rel_append ?_ (.cons isLeafOf_end .nil)
  exact List.rel_flatMap (List.forall₂_same.2 fun place _ => rfl) (R := Eq) (by
    rintro place _ rfl
    exact place.2.leaves_laid place.1)

theorem formatted_laid : placed.laid.Everywhere Formatted := by
  refine everywhere_iff.2 ⟨(rfl : Option.isSome (some _) = true), List.forall_mem_append.2
    ⟨List.forall_mem_map.2 fun place _ => formatted_import _ _, List.forall_mem_singleton.2 ?_⟩⟩
  exact everywhere_iff.2 ⟨(rfl : Option.isSome (some _) = true),
    fun _ absent => absurd absent List.not_mem_nil⟩

theorem bare_read : placed.read.bare = placed.laid.bare := by
  rw [read, laid, Grammar.grow, bare_withLeading, bare_withLeading]
  simp [Node.branch, bare_mk, SplitImport.bare_read, bare_node, bare_withLeading]
  rfl

theorem reads : Reads takeLexeme Rule.body (.rule .compilationUnit) placed.tokens
    (some ([placed.read], [])) := by
  have endReads : Reads takeLexeme Rule.body (.token .endOfText) [endToken]
      (some ([endToken.node .endOfFile], [])) := .token_of_accepts rfl []
  have importsRead : Reads takeLexeme Rule.body (Rule.all .importDecl) placed.tokens
      (some (placed.map fun place => place.2.read place.1, [endToken])) := by
    induction placed with
    | nil => exact .manyEnd (endReads.none_of_apart (by decide) rfl rfl)
    | cons place placed induction =>
        rw [tokens, List.flatMap_cons, List.append_assoc]
        exact .manyMore (place.2.reads place.1 _) induction
  have typesRead : Reads takeLexeme Rule.body (Rule.all .topLevel)
      [endToken] (some ([], [endToken])) :=
    .manyEnd (endReads.none_of_apart (by decide) rfl rfl)
  have others := Reads.seq importsRead (.seq typesRead endReads)
  have file : Reads takeLexeme Rule.body (Rule.body .compilationUnit) _ _ :=
    .branch (.seq (reads_optional_none (package_none_of_others others)) others)
  simpa [Reading.after, Reading.under, read] using file.rule

theorem parse_laid (space : ∀ place ∈ placed, ∀ c ∈ place.1.toList, Trivia.isSpace c = true) :
    ∃ tree, parse placed.laid.written = .ok tree ∧ tree.content = placed.laid.hoist.content :=
  have apart := placed.fallsApart space
  parse_written apart placed.reads (CutInto.plain apart (map_of_isLeafOf placed.leaves_laid).2.2.1)
    placed.bare_read placed.formatted_laid placed.leaves_laid

end PlacedImports

/-! ## Their layout -/

def onLines : List SplitImport → PlacedImports
  | [] => []
  | first :: rest => ("", first) :: rest.map fun parts => ("\n", parts)

theorem isSpace_onLines (all : List SplitImport) :
    ∀ place ∈ onLines all, ∀ c ∈ place.1.toList, Trivia.isSpace c = true := by
  cases all with
  | nil => exact fun _ absent => absurd absent List.not_mem_nil
  | cons first rest => simp [onLines, Trivia.isSpace]

theorem laysOut_end {page : Printer.Page} {before : List Node} :
    Printer.LaysOut page (some ⟨.sourceFile, before⟩) (Node.token .endOfFile "")
      ((Node.token .endOfFile "").withLeading .empty) := by
  refine .token ?_
  cases before <;> rfl

theorem layOutAll_behind {page : Printer.Page} {before : List Node} {previous : Node}
    (isImport : previous.kind = .importDecl) (rest : List SplitImport) :
    Printer.LayOutAll page .sourceFile (previous :: before)
      (rest.map (·.edit.made) ++ [Node.token .endOfFile ""])
      (rest.map (·.laid "\n") ++ [(Node.token .endOfFile "").withLeading .empty]) := by
  induction rest generalizing page before previous with
  | nil => exact .cons_of_ne (by decide) laysOut_end .nil
  | cons parts rest induction =>
      refine .cons_of_ne (by decide) (parts.laysOut "\n" ?_) (induction rfl)
      rw [AddImport.made, leading_importDecl, importLeading, Node.is, isImport]
      rfl

theorem laysOut_file (page : Printer.Page) (all : List SplitImport) :
    Printer.LaysOut page none (AddImport.fileOf (all.map SplitImport.edit)) (onLines all).laid := by
  refine .branch rfl (by simp) ?_
  rw [List.map_map]
  cases all with
  | nil => exact .cons_of_ne (by decide) laysOut_end .nil
  | cons first rest =>
      rw [onLines, List.map_cons, List.map_cons, List.map_map]
      exact .cons_of_ne (by decide) (first.laysOut "" rfl) (layOutAll_behind rfl rest)

theorem SplitImport.content_made (parts : SplitImport) :
    parts.edit.made.content = parts.edit.made :=
  content_importDecl parts.split _

theorem content_fileOf (all : List SplitImport) :
    (AddImport.fileOf (all.map SplitImport.edit)).content =
    AddImport.fileOf (all.map SplitImport.edit) := by
  have each : all.map (content ∘ AddImport.made ∘ SplitImport.edit) =
      all.map (AddImport.made ∘ SplitImport.edit) :=
    List.map_congr_left fun parts _ => parts.content_made
  simp only [AddImport.fileOf, content_branch, List.map_append,
    List.map_map, each, List.map_singleton, content_token]

theorem childrenOfKind_made (edit : AddImport) :
    edit.made.childrenOfKind .qualifiedName = [Made.qualifiedName edit.imported] := by
  rw [AddImport.made, Made.importDecl]
  cases edit.isStatic <;> rfl

theorem children_hoist_single (parts : SplitImport) :
    (PlacedImports.laid [("", parts)]).hoist.children =
      [(parts.laid "").hoist, (Node.token .endOfFile "").withLeading .empty] := by
  have none : (parts.laid "").hoist.hasLeading = false := by
    rw [SplitImport.laid, laidImport, Node.branch, withLeading, hoist_cons_of_not_hasLeading rfl]
    rfl
  rw [PlacedImports.laid, Node.branch, withLeading]
  exact congrArg Node.children (hoist_cons_of_not_hasLeading none)

end Java

namespace AddImport

/-- Imports with names that are accepted and free of reserved words are printed as texts that
are read as what was printed, each of them alone, with its name as it was given, and any number
of them as the only children of a file. -/
theorem made_imports_read_back {imports : List AddImport}
    (importable : ∀ edit ∈ imports, Importable edit.imported) :
    (∀ edit ∈ imports, ∃ printed file declaration last resolved,
      edit.made.print = .ok printed ∧
      printed = "import " ++ ((if edit.isStatic then "static " else "") ++ (edit.imported ++ ";")) ∧
      (∀ c ∈ edit.imported.toList, Trivia.isSpace c = false) ∧
      Java.parse printed = .ok file ∧ file.kind = .sourceFile ∧
      file.children = [declaration, last] ∧
      declaration.kind = .importDecl ∧ last.kind = .endOfFile ∧
      edit.made.resolveFormatting = .ok resolved ∧ declaration.contentEq resolved = true ∧
      (declaration.childrenOfKind .qualifiedName).map Node.tokensText = [edit.imported]) ∧
    ∃ printed resolved reparsed, (fileOf imports).print = .ok printed ∧
      (fileOf imports).resolveFormatting = .ok resolved ∧ Java.parse printed = .ok reparsed ∧
      reparsed.contentEq resolved = true := by
  constructor
  · intro edit member
    rcases Java.exists_splitImport (importable edit member) with ⟨parts, rfl⟩
    have laysOut : Printer.LaysOut ⟨"", []⟩ none parts.edit.made (parts.laid "") :=
      parts.laysOut "" rfl
    rcases prints_of_laysOut (faithful_of_content parts.content_made)
      (parts.content_made.symm ▸ laysOut) with ⟨printed, resolved, resolves, content⟩
    have alone : (Java.PlacedImports.laid [("", parts)]).written = (parts.laid "").written := by
      simp [Java.PlacedImports.laid, Node.branch, Node.token, withLeading, written, writtenOfAll]
    rcases Java.PlacedImports.parse_laid [("", parts)] (by simp) with ⟨file, read, fileContent⟩
    rw [alone] at read
    have children := congrArg Node.children fileContent
    rw [children_content, children_content, Java.children_hoist_single] at children
    rcases List.map_eq_cons_iff.1 children with ⟨declaration, others, isFile, isImport, behind⟩
    rcases List.map_eq_singleton_iff.1 behind with ⟨last, rfl, isEnd⟩
    have bare : declaration.bare = parts.edit.made.bare := by
      rw [← bare_content, isImport, bare_content, bare_hoist, parts.bare_laid]
    refine ⟨_, file, declaration, last, resolved, printed, ?_, parts.noSpace, read,
      Java.kind_of_parse read, isFile, ?_, ?_, resolves,
      contentEq_iff_content.2 (isImport.trans content.symm), ?_⟩
    · rw [parts.written_laid, String.empty_append]
    · rw [← kind_bare, bare, kind_bare]
      rfl
    · rw [← kind_content, isEnd]
      rfl
    · have named := congrArg (fun node => (node.childrenOfKind .qualifiedName).map tokensText) bare
      simp only [childrenOfKind_bare, List.map_map, Function.comp_def, tokensText_bare] at named
      rw [named, Java.childrenOfKind_made, List.map_singleton, tokensText_qualifiedName]
  · rcases Java.exists_splitImports importable with ⟨all, rfl⟩
    rcases prints_of_laysOut (faithful_of_content (Java.content_fileOf all))
      ((Java.content_fileOf all).symm ▸ Java.laysOut_file ⟨"", []⟩ all) with
      ⟨printed, resolved, resolves, content⟩
    rcases (Java.onLines all).parse_laid (Java.isSpace_onLines all) with ⟨reparsed, read, same⟩
    exact ⟨_, resolved, reparsed, printed, resolves, read,
      contentEq_iff_content.2 (same.trans content.symm)⟩

theorem importable_of_isQualified {name : String} (qualified : isQualified name = true)
    (free : ∀ segment ∈ Text.splitString '.' name, Java.isReserved segment = false) :
    Importable name := by
  let settings : Settings := .ofList AddImport.name [("typeName", .string name)]
  have only : settings.expectOnly ["typeName", "static"] = .ok () := rfl
  have named : settings.requiredText "typeName" = .ok name := rfl
  have static : settings.optionalBool "static" = .ok none := rfl
  refine ⟨⟨settings, ⟨name, false⟩, ?_, rfl⟩, free⟩
  rw [ofSettings, only, named, static]
  simp [qualified, bind, Except.bind, pure, Except.pure]

/-- A static import of all members and one of a name with letters of other alphabets. -/
theorem made_imports_read_back_of_two :
    (∀ edit ∈ [AddImport.mk "java.util.Map.*" true, ⟨"größe.Δελτα", false⟩],
      Importable edit.imported) ∧
    ∃ printed resolved reparsed,
      (fileOf [⟨"java.util.Map.*", true⟩, ⟨"größe.Δελτα", false⟩]).print = .ok printed ∧
      (fileOf [⟨"java.util.Map.*", true⟩, ⟨"größe.Δελτα", false⟩]).resolveFormatting =
        .ok resolved ∧
      Java.parse printed = .ok reparsed ∧ reparsed.contentEq resolved = true := by
  have importable : ∀ edit ∈ [AddImport.mk "java.util.Map.*" true, ⟨"größe.Δελτα", false⟩],
      Importable edit.imported := by
    rw [List.forall_mem_cons, List.forall_mem_singleton]
    exact ⟨importable_of_isQualified (by decide) (by decide +kernel),
      importable_of_isQualified (by decide +kernel) (by decide)⟩
  exact ⟨importable, (made_imports_read_back importable).2⟩

end AddImport

end Verbatim
