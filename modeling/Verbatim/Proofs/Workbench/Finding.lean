import Verbatim.Proofs.Edits.Finding
import Verbatim.Proofs.Recipe.Reaching
import Verbatim.Proofs.Tree.Paths
import Verbatim.Proofs.Workbench.Running

/-! Searching never edits. A recipe that only searches leaves its markers in a tree, which is
printed as before; so a run of the recipe writes nothing and reports no file as changed. -/

namespace Verbatim

open Node Report

namespace FindIdentifier

/-! ## Recipes that only search -/

theorem isSearch_of_name : Catalog.standard.All (VisitorKind.Makes fun visitor =>
    visitor.name = FindIdentifier.name → ∃ search : FindIdentifier, search.visitor = visitor) :=
  standard_makes
    (fun _ same => absurd same (show ChangeText.name ≠ name by decide))
    (fun _ same => absurd same (show RenameIdentifier.name ≠ name by decide))
    (fun search _ => ⟨search, rfl⟩)
    (fun _ same => absurd same (show RemoveAnnotations.name ≠ name by decide))
    (fun _ same => absurd same (show AddImport.name ≠ name by decide))
    (fun _ same => absurd same (show BlankLines.name ≠ name by decide))

theorem exists_searches {libraries : Libraries} {snapshot : Snapshot} {path : String}
    {recipe : Recipe}
    (loads : (Workbench.ofLibraries libraries).loadRecipe snapshot path = .ok recipe)
    (named : ∀ visitor ∈ recipe.visitors, visitor.name = FindIdentifier.name) :
    ∃ searches : List FindIdentifier, recipe.visitors = searches.map visitor := by
  rcases exceptBind_eq_ok.1 loads with ⟨text, -, loads⟩
  rcases exceptBind_eq_ok.1 loads with ⟨document, -, created⟩
  have each := Document.toRecipe_makes isSearch_of_name created
  generalize recipe.visitors = visitors at named each
  induction visitors with
  | nil => exact ⟨[], rfl⟩
  | cons visitor rest induction =>
      rcases each visitor List.mem_cons_self (named visitor List.mem_cons_self) with ⟨search, rfl⟩
      rcases induction (fun other member => named other (List.mem_cons_of_mem _ member))
        (fun other member => each other (List.mem_cons_of_mem _ member)) with ⟨searches, rfl⟩
      exact ⟨search :: searches, rfl⟩

/-! ## Files -/

theorem noIdentifier_of_readPlainText {text : String} {tree : Node}
    (read : Language.readPlainText text = .ok tree) :
    tree.Everywhere fun part => part.kind ≠ .identifier := by
  refine everywhere_of_mapHeads_eq (fun part => by rw [toNodeHead_mapHeads, bareHead])
    (Language.bare_of_readPlainText read)
    (everywhere_iff.2 ⟨show Kind.sourceFile ≠ .identifier by decide, fun child member => ?_⟩)
  rw [List.mem_singleton.1 member]
  exact everywhere_iff.2 ⟨show Kind.plainText ≠ .identifier by decide,
    fun _ absent => absurd absent List.not_mem_nil⟩

theorem everywhere_of_withoutIds_eq (property : List Marker → Kind → Prop) {tree read : Node}
    (numbered : tree.withoutIds = read.withoutIds)
    (holds : read.Everywhere fun part => property part.markers part.kind) :
    tree.Everywhere fun part => property part.markers part.kind := by
  have same : tree.content = read.content := by
    rw [← content_withoutIds, numbered, content_withoutIds]
  rw [content_eq_mapHeads, content_eq_mapHeads] at same
  exact everywhere_of_mapHeads_eq (fun part => by rw [toNodeHead_mapHeads, headContent]) same holds

section

variable {libraries : Libraries} {recipe : Recipe} {searches : List FindIdentifier}
  (visitors : recipe.visitors = searches.map visitor) {limits : WalkLimits}

include visitors

/-- What was read is reported as unchanged after searches. -/
theorem ofRun_searches (time : limits.expired = false) {first next : Nat} {input : Input}
    {source : Workbench.SourceFile}
    (opened : (Workbench.ofLibraries libraries).readFile first input = (.ok source, next))
    {session : Session} (going : session.cancelled = false) :
    Workbench.FileOutcome.ofRun libraries.changeset source
      (recipe.run limits session source.tree) = .unchanged source := by
  rcases recipe with ⟨name, _, iteration⟩
  obtain rfl := visitors
  rcases Workbench.readFile_eq_ok_iff.1 opened with
    ⟨language, text, root, claimed, -, wasRead, rfl⟩
  have known : language ∈ Language.standard := List.mem_of_find?_eq_some claimed
  have built : (language.read first text).1 = .ok root := congrArg Prod.fst wasRead
  simp only [Language.standard, List.mem_cons, List.not_mem_nil, or_false] at known
  rcases known with rfl | rfl
  all_goals
    have numbered : root.withoutIds = root.withoutIds.withoutIds :=
      (withoutIds_renumber (fun _ => .unnumbered) root).symm
  · have parsed : Java.parse text = .ok root.withoutIds := by
      rw [← Java.parseElements_withoutIds first, show Java.parseElements first text = _ from built]
      rfl
    have bare := everywhere_of_withoutIds_eq (fun markers _ => markers = []) numbered
      (Java.everywhere_markers_of_parse parsed)
    rcases run_searches time going bare name searches iteration with ⟨result, ran, tree, -⟩
    rw [ran, Workbench.FileOutcome.ofRun, Workbench.FileOutcome.ofResult, tree,
      print_searched searches parsed numbered]
    split
    · exact if_pos rfl
    · rfl
  · have parsed : Language.readPlainText text = .ok root.withoutIds := by
      rw [← Language.readPlainElements_withoutIds first,
        show Language.readPlainElements first text = _ from built]
      rfl
    have bare := everywhere_of_withoutIds_eq (fun markers _ => markers = []) numbered
      (Language.everywhere_markers_of_readPlainText parsed)
    have noIdentifier := everywhere_of_withoutIds_eq (fun _ kind => kind ≠ .identifier) numbered
      (noIdentifier_of_readPlainText parsed)
    rcases run_searches time going bare name searches iteration with ⟨result, ran, -, finds⟩
    have unchanged : result.changed ≠ true := fun changed => by
      rcases finds.1 changed with ⟨search, -, part, inside, seeks⟩
      exact noIdentifier part inside seeks.1
    rw [ran, Workbench.FileOutcome.ofRun, Workbench.FileOutcome.ofResult, if_neg unchanged]

theorem report_of_comesTo (time : limits.expired = false) {input : Input}
    {outcome : Workbench.FileOutcome}
    (comes : (Workbench.ofLibraries libraries).ComesTo recipe limits input outcome) :
    outcome.report =
      match ((Workbench.ofLibraries libraries).readFile Workbench.firstNumber input).1 with
      | .error failure => .failed input.path failure
      | .ok source => .unchanged source.path source.language := by
  have counts : ∀ language ∈ (Workbench.ofLibraries libraries).languages, language.Counts :=
    fun _ => Language.counts_of_mem_standard
  rcases comes with ⟨next, later, leaves, rfl⟩
  rw [Workbench.runFileFrom]
  rcases opened : (Workbench.ofLibraries libraries).readFile Workbench.firstNumber input with
    ⟨failure | alone, free⟩
  · rw [Workbench.readFile_error counts leaves opened]
    rfl
  · rcases Workbench.readFile_ok counts leaves opened with ⟨anew, -, -, read⟩
    rcases again : (Workbench.ofLibraries libraries).readFile next input with
      ⟨failure | source, after⟩
    · rw [again] at read
      cases read
    · rw [again] at read
      cases Except.ok.inj read
      exact congrArg (·.report) (ofRun_searches visitors time again
        (show (Session.start later false).cancelled = false from rfl))

theorem text_runFile_searches (input : Input) :
    ((Workbench.ofLibraries libraries).runFile recipe limits input).text = none := by
  rcases Workbench.runFile_cases (Workbench.ofLibraries libraries) recipe limits input with
    ⟨before, printed, language, -, rewrites, outcome⟩ | ⟨-, -, none⟩
  · exfalso
    cases time : limits.expired with
    | false =>
        have report := report_of_comesTo visitors time
          (@Workbench.comesTo_runFile (.ofLibraries libraries) recipe limits input)
        have status := congrArg (·.status) report
        rw [outcome] at status
        split at status <;> cases status
    | true =>
        rcases rewrites with ⟨language, root, next, result, -, -, ran, changed, -⟩
        rw [Recipe.changed_of_expired time ran] at changed
        cases changed
  · exact none

end

/-! ## Runs -/

/-- Searches leave a file as it was read, whatever they find in it and however often they go
through it: the tree is printed as the same text, and every node is the one that stood there,
but that each identifier has the marker of every search for it, once. A recipe of searches
leaves the same tree, which counts as changed if there is such an identifier. A run of such a
recipe writes nothing, and all files that can be read are reported as unchanged. -/
theorem searching_marks :
    (∀ (searches : List FindIdentifier) (name : String) (iteration : Iteration) {text : String}
        {read : Node}, Java.parse text = .ok read → ∀ (first : Nat) {limits : WalkLimits},
        limits.expired = false → ∀ {session : Session}, session.cancelled = false →
      ∃ tree steps after result,
        Walks limits (searches.map visitor) (read.number first).1 session steps tree after ∧
        Recipe.run ⟨name, searches.map visitor, iteration⟩ limits session (read.number first).1 =
          .ok result ∧
        result.tree = tree ∧
        (result.changed = true ↔ ∃ search ∈ searches, ∃ part ∈ (read.number first).1.preorder,
          search.Seeks part.toNodeHead) ∧
        tree.print = .ok text ∧
        ∀ path, Option.Rel (fun part new => Marks searches part.toNodeHead new.toNodeHead)
          ((read.number first).1.descendant? path) (tree.descendant? path)) ∧
    ∀ {libraries : Libraries} {snapshot : Snapshot} {request : Workbench.RunRequest}
        {recipe : Recipe} {inputs : List Input} {next : Nat},
      (Workbench.ofLibraries libraries).loadRecipe snapshot request.recipe = .ok recipe →
      (∀ visitor ∈ recipe.visitors, visitor.name = FindIdentifier.name) →
      (Workbench.ofLibraries libraries).collect snapshot request.paths = .ok inputs →
      Workbench.firstNumber ≤ next →
      ∃ outcome, (Workbench.ofLibraries libraries).run snapshot next request = .ok outcome ∧
        outcome.texts = [] ∧
        (request.limits.expired = false → outcome.report.files = inputs.map fun input =>
          match ((Workbench.ofLibraries libraries).readFile Workbench.firstNumber input).1 with
          | .error failure => .failed input.path failure
          | .ok source => .unchanged source.path source.language) := by
  constructor
  · intro searches name iteration text read parsed first limits time session going
    have numbered := withoutIds_number read first
    have bare := everywhere_of_withoutIds_eq (fun markers _ => markers = []) numbered
      (Java.everywhere_markers_of_parse parsed)
    rcases walks_searches time going searches (read.number first).1 with ⟨steps, after, walks⟩
    rcases run_searches time going bare name searches iteration with ⟨result, ran, tree, finds⟩
    refine ⟨_, steps, after, result, walks, ran, tree, finds,
      print_searched searches parsed numbered, fun path => ?_⟩
    rw [descendant?_searched]
    cases found : (read.number first).1.descendant? path with
    | none => exact .none
    | some part => exact .some (marks_searched searches
        (bare part (mem_preorder_of_descendant? found)))
  · intro libraries snapshot request recipe inputs next loads named collected first_le
    rcases exists_searches loads named with ⟨searches, visitors⟩
    rcases Workbench.runFiles_comeTo_of_loadRecipe loads request.limits first_le inputs with
      ⟨comes, comesAlike⟩
    refine ⟨_, Workbench.run_eq_ok loads collected, ?_, fun time => ?_⟩
    · have none : Workbench.changes libraries recipe request.limits inputs = [] :=
        List.filterMap_eq_nil_iff.2 fun input _ => by
          rw [text_runFile_searches visitors, Option.map_none]
      rw [Workbench.texts_ofFiles request.dryRun (comes.imp fun input _ here =>
        comesAlike (Workbench.comesTo_runFile ..) here), none, ite_self]
    · apply List.forall₂_eq_eq_eq.le
      apply List.forall₂_map_left_iff.2
      apply List.forall₂_map_right_iff.2
      exact comes.flip.imp fun _ _ here => report_of_comesTo visitors time here

/-- The name of a class is found, by either of two searches, and the file stays as it is. -/
theorem searching_marks_of_class :
    (∃ read tree steps after result, Java.parse "class A \x7b\x7d" = .ok read ∧
      Walks .none ([⟨"A", none⟩, ⟨"A", some "here"⟩].map visitor)
        (read.number 1).1 (.start 100 false)
        steps tree after ∧
      Recipe.run ⟨"r", [⟨"A", none⟩, ⟨"A", some "here"⟩].map visitor, .untilStable 3⟩ .none
        (.start 100 false) (read.number 1).1 = .ok result ∧
      result.tree = tree ∧ result.changed = true ∧ tree.print = .ok "class A \x7b\x7d") ∧
    let recipeText :=
      "\x7b\"name\":\"r\",\"visitors\":[\x7b\"type\":\"find-identifier\",\"name\":\"A\"\x7d]\x7d"
    let disk : Disk := ⟨.folder [("A.java", .file (some "class A \x7b\x7d")),
      ("r.json", .file (some recipeText))], []⟩
    ∃ outcome, Workbench.standard.run disk.snapshot 7 ⟨"r.json", ["A.java"], false, .none⟩ =
        .ok outcome ∧
      outcome.texts = [] ∧ outcome.report.files = [.unchanged "A.java" "java"] := by
  constructor
  · have evaluated : (Java.parse "class A \x7b\x7d").toOption.map (fun read =>
        (read.number 1).1.preorder.any fun part =>
          decide (part.kind = .identifier ∧ part.text = some "A")) = some true := by decide +kernel
    cases parsed : Java.parse "class A \x7b\x7d" with
    | error error =>
        rw [parsed] at evaluated
        cases evaluated
    | ok read =>
        rw [parsed] at evaluated
        rcases List.any_eq_true.1 (Option.some.inj evaluated) with ⟨part, inside, found⟩
        have seeks : part.kind = .identifier ∧ part.text = some "A" := of_decide_eq_true found
        rcases searching_marks.1 [⟨"A", none⟩, ⟨"A", some "here"⟩] "r" (.untilStable 3) parsed 1
          (show WalkLimits.none.expired = false from rfl)
          (show (Session.start 100 false).cancelled = false from rfl) with
          ⟨tree, steps, after, result, walks, ran, same, finds, prints, -⟩
        exact ⟨read, tree, steps, after, result, rfl, walks, ran, same,
          finds.2 ⟨_, List.mem_cons_self, part, inside, seeks⟩, prints⟩
  · intro recipeText disk
    have collected : (Workbench.standard.collect disk.snapshot ["A.java"]).toOption =
        some [⟨"A.java", some "class A \x7b\x7d"⟩] := by decide
    have named : (Workbench.standard.loadRecipe disk.snapshot "r.json").toOption.map (fun recipe =>
        recipe.visitors.all fun visitor => visitor.name = FindIdentifier.name) = some true := by
      decide +kernel
    have opened : (Workbench.standard.readFile 1
        ⟨"A.java", some "class A \x7b\x7d"⟩).1.toOption.map (fun source =>
          (source.path, source.language)) = some ("A.java", "java") := by decide +kernel
    cases inputs : Workbench.standard.collect disk.snapshot ["A.java"] with
    | error failure =>
        rw [inputs] at collected
        cases collected
    | ok all =>
        rw [inputs] at collected
        obtain rfl := Option.some.inj collected
        cases loads : Workbench.standard.loadRecipe disk.snapshot "r.json" with
        | error fault =>
            rw [loads] at named
            cases named
        | ok recipe =>
            rw [loads] at named
            have searches := List.all_eq_true.1 (Option.some.inj named)
            rcases @searching_marks.2 .standard _ ⟨"r.json", ["A.java"], false, .none⟩ _ _ 7 loads
              (fun visitor member => of_decide_eq_true (searches visitor member)) inputs
              (by decide) with ⟨outcome, ran, nothing, files⟩
            refine ⟨outcome, ran, nothing, (files rfl).trans ?_⟩
            rw [List.map_singleton]
            show [match (Workbench.standard.readFile 1
              ⟨"A.java", some "class A \x7b\x7d"⟩).1 with
              | .error failure => FileReport.failed _ failure
              | .ok source => .unchanged source.path source.language] = _
            cases read : (Workbench.standard.readFile 1 ⟨"A.java", some "class A \x7b\x7d"⟩).1 with
            | error failure =>
                rw [read] at opened
                cases opened
            | ok source =>
                rw [read] at opened
                rcases Prod.mk.inj (Option.some.inj opened) with ⟨path, language⟩
                rw [← path, ← language]

end FindIdentifier

end Verbatim
