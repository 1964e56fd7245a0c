import Verbatim.Proofs.Edits.Building
import Verbatim.Recipe.Document

/-! Recipes lead from trees that a program can come by to such trees: all visitors that a document
can name build their answers from what they see. -/

namespace Verbatim

/-! ## Entries -/

namespace Entries

variable {α : Type} {property : α → Prop}

def All (property : α → Prop) (entries : Entries α) : Prop :=
  ∀ entry ∈ entries.toList, property entry.2

theorem All.insert {entries : Entries α} (all : entries.All property) (name : String) {value : α}
    (holds : property value) : (entries.insert name value).All property := by
  rcases entries with ⟨list, increasing⟩
  have given : ∀ entry ∈ list, property entry.2 := all
  have inserted : ∀ entry ∈ insertInto name value list, property entry.2 := by
    clear all increasing
    induction list with
    | nil =>
        intro entry member
        rw [List.mem_singleton.1 member]
        exact holds
    | cons first rest induction =>
        have others : ∀ entry ∈ insertInto name value rest, property entry.2 :=
          induction fun entry member => given entry (List.mem_cons_of_mem _ member)
        rw [insertInto]
        split
        · intro entry member
          rcases List.mem_cons.1 member with rfl | member
          · exact holds
          · exact given entry member
        · split
          · intro entry member
            rcases List.mem_cons.1 member with rfl | member
            · exact holds
            · exact given entry (List.mem_cons_of_mem _ member)
          · intro entry member
            rcases List.mem_cons.1 member with rfl | member
            · exact given _ List.mem_cons_self
            · exact others entry member
  exact inserted

theorem All.get? {entries : Entries α} (all : entries.All property) {name : String} {value : α}
    (found : entries.get? name = some value) : property value := by
  rcases List.lookup_eq_some_iff.1 found with ⟨before, behind, equal, -⟩
  exact all (name, value) (by rw [equal]; simp)

end Entries

/-! ## The catalog -/

def VisitorKind.Makes (property : Visitor → Prop) (kind : VisitorKind) : Prop :=
  ∀ settings visitor, kind.make settings = .ok visitor → property visitor

theorem makes_of_ofSettings {property : Visitor → Prop} {Edit : Type} {summary : String}
    {ofSettings : Settings → Except RecipeFault Edit} {visitor : Edit → Visitor}
    (each : ∀ edit, property (visitor edit)) : VisitorKind.Makes property
      ⟨summary, fun settings => do return visitor (← ofSettings settings)⟩ := by
  intro settings made created
  rcases exceptBind_eq_ok.1 created with ⟨edit, -, equal⟩
  cases equal
  exact each edit

theorem standard_makes {property : Visitor → Prop} (changeText : ∀ edit : ChangeText,
      property edit.visitor) (renameIdentifier : ∀ edit : RenameIdentifier, property edit.visitor)
    (findIdentifier : ∀ search : FindIdentifier, property search.visitor)
    (removeAnnotations : ∀ edit : RemoveAnnotations, property edit.visitor)
    (addImport : ∀ edit : AddImport, property edit.visitor)
    (blankLines : ∀ style : BlankLines, property style.visitor) :
    Catalog.standard.All (VisitorKind.Makes property) := by
  have empty : (Entries.empty : Entries VisitorKind).All (VisitorKind.Makes property) :=
    fun entry member => absurd member List.not_mem_nil
  exact (((((empty.insert _ (makes_of_ofSettings changeText)).insert _
    (makes_of_ofSettings renameIdentifier)).insert _
    (makes_of_ofSettings findIdentifier)).insert _
    (makes_of_ofSettings removeAnnotations)).insert _
    (makes_of_ofSettings addImport)).insert _ (makes_of_ofSettings blankLines)

theorem standard_builds : Catalog.standard.All (VisitorKind.Makes Visitor.Builds) :=
  standard_makes ChangeText.builds RenameIdentifier.builds FindIdentifier.builds
    RemoveAnnotations.builds AddImport.builds BlankLines.builds

section

variable {property : Visitor → Prop} {catalog : Catalog}
  (makes : catalog.All (VisitorKind.Makes property))

include makes

theorem Catalog.create_makes {settings : Settings} {visitor : Visitor}
    (created : catalog.create settings = .ok visitor) : property visitor := by
  rw [create] at created
  cases found : catalog.get? settings.visitor with
  | none =>
      rw [found] at created
      cases created
  | some kind =>
      rw [found] at created
      exact makes.get? found settings visitor created

theorem Document.createVisitors_make {all : List Settings} {visitors : List Visitor}
    (created : createVisitors catalog all = .ok visitors) :
    ∀ visitor ∈ visitors, property visitor := by
  induction all generalizing visitors with
  | nil =>
      cases created
      exact fun visitor member => absurd member List.not_mem_nil
  | cons settings rest induction =>
      rw [createVisitors] at created
      rcases exceptBind_eq_ok.1 created with ⟨first, firstCreated, created⟩
      rcases exceptBind_eq_ok.1 created with ⟨others, othersCreated, equal⟩
      cases equal
      intro visitor member
      rcases List.mem_cons.1 member with rfl | member
      · exact Catalog.create_makes makes firstCreated
      · exact induction othersCreated visitor member

theorem Document.toRecipe_makes {document : Document} {recipe : Recipe}
    (created : document.toRecipe catalog = .ok recipe) :
    ∀ visitor ∈ recipe.visitors, property visitor := by
  rw [toRecipe] at created
  split at created
  · cases created
  · rcases exceptBind_eq_ok.1 created with ⟨iteration, -, created⟩
    rcases exceptBind_eq_ok.1 created with ⟨visitors, visitorsCreated, equal⟩
    cases equal
    exact createVisitors_make makes visitorsCreated

end

/-! ## Recipes -/

namespace Recipe

variable {recipe : Recipe} {limits : WalkLimits}

theorem applyVisitor_ensures {visitor : Visitor} (builds : visitor.Builds) {tree : Node}
    (reachable : Reachable tree) :
    Ensures (fun _ => True) (recipe.applyVisitor limits visitor tree) fun changed =>
      ∀ after, changed = some after → Reachable after := by
  rw [applyVisitor]
  apply (Ensures.anything _).bind
  intro session _
  cases walked : walk visitor limits tree session with
  | mk result after =>
      apply (Ensures.anything _).bind
      intro _ _
      cases result with
      | error cause => exact .throw
      | ok changed =>
          apply Ensures.pure
          intro kept found
          rw [Option.filter_eq_some_iff] at found
          rw [found.1] at walked
          exact builds.reachable reachable (congrArg Prod.fst walked)

theorem cycle_ensures {visitors : List Visitor} (build : ∀ visitor ∈ visitors, visitor.Builds)
    {tree : Node} (reachable : Reachable tree) :
    Ensures (fun _ => True) (recipe.cycle limits visitors tree) fun changed =>
      ∀ after, changed = some after → Reachable after := by
  induction visitors generalizing tree with
  | nil => exact .pure fun after absent => nomatch absent
  | cons visitor rest induction =>
      rw [cycle]
      refine (applyVisitor_ensures (build visitor List.mem_cons_self) reachable).bind
        fun changed reachableChanged => ?_
      have next : Reachable (changed.getD tree) := by
        cases changed with
        | none => exact reachable
        | some after => exact reachableChanged after rfl
      refine (induction (fun other member => build other (List.mem_cons_of_mem _ member)) next).bind
        fun further reachableFurther => .pure fun after found => ?_
      cases further with
      | none => exact reachableChanged after found
      | some last => exact reachableFurther after found

theorem repeatCycle_ensures (build : ∀ visitor ∈ recipe.visitors, visitor.Builds)
    {left cycles : Nat} {changed : Bool} {tree : Node} (reachable : Reachable tree) :
    Ensures (fun _ => True) (recipe.repeatCycle limits left cycles changed tree) fun result =>
      Reachable result.tree := by
  induction left generalizing cycles changed tree with
  | zero => exact .pure reachable
  | succ left induction =>
      rw [repeatCycle]
      apply (cycle_ensures build reachable).bind
      intro after reachableAfter
      cases after with
      | none => exact .pure reachable
      | some after => exact induction (reachableAfter after rfl)

theorem run_reachable (build : ∀ visitor ∈ recipe.visitors, visitor.Builds) {session : Session}
    {tree : Node} {result : RecipeResult} (reachable : Reachable tree)
    (succeeded : recipe.run limits session tree = .ok result) : Reachable result.tree := by
  rw [run] at succeeded
  cases ran : (recipe.runFrom limits tree).run.run session with
  | mk outcome after =>
      rw [ran] at succeeded
      cases succeeded
      exact (repeatCycle_ensures build reachable session result after trivial ran).2

end Recipe

theorem Document.run_reachable {document : Document} {recipe : Recipe}
    (created : document.toRecipe .standard = .ok recipe) {limits : WalkLimits} {session : Session}
    {tree : Node} {result : RecipeResult} (reachable : Reachable tree)
    (succeeded : recipe.run limits session tree = .ok result) : Reachable result.tree :=
  recipe.run_reachable (toRecipe_makes standard_builds created) reachable succeeded

end Verbatim
