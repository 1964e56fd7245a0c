import Mathlib.Data.List.Nodup
import Mathlib.Data.List.TakeWhile
import Verbatim.Edits.Standard
import Verbatim.Recipe.Document

/-! Recipe documents are strict. What a visitor asks of its parameters is written down as a list of
requirements, and a document becomes a recipe if nothing in it violates any of them; otherwise it is
refused for the first violation, in the order of the document. -/

namespace Verbatim

/-! ## Requirements -/

inductive ParameterType where
  | text
  | bool
  | natural
  deriving DecidableEq, Repr

namespace ParameterType

def accepts : ParameterType → Json.Value → Bool
  | text, .string _ => true
  | bool, .bool _ => true
  | natural, .number (.whole (.ofNat _)) => true
  | _, _ => false

def fault : ParameterType → Json.Value → ParameterFault
  | text => .notText
  | bool => .notBool
  | natural => .notNatural

end ParameterType

/-- What a visitor asks of one of its parameters. -/
inductive Requirement where
  /-- The value is of the type. It may be missing unless it is required. -/
  | typed (parameter : String) (type : ParameterType) (required : Bool)
  /-- The text has the form; of any other text it is told what is wrong with it. -/
  | formed (parameter : String) (accepts : String → Bool) (wrong : String → String)

namespace Requirement

/-- The parameter that it makes known. A form is asked of a parameter that is known already. -/
def parameter? : Requirement → Option String
  | typed parameter _ _ => some parameter
  | formed _ _ _ => none

def Met (settings : Settings) : Requirement → Prop
  | typed parameter type required =>
    (required = true → parameter ∈ settings.values.names) ∧
      ∀ value, settings.values.get? parameter = some value → type.accepts value = true
  | formed parameter accepts _ =>
    ∀ text, settings.values.get? parameter = some (.string text) → accepts text = true

/-- What is told where the requirement is not met. -/
def fault? (settings : Settings) : Requirement → Option RecipeFault
  | typed parameter type required =>
    match settings.values.get? parameter with
    | none => if required then some (.missingParameter settings.visitor parameter) else none
    | some value =>
      if type.accepts value then none else some (settings.invalid parameter (type.fault value))
  | formed parameter accepts wrong =>
    match settings.values.get? parameter with
    | some (.string text) =>
      if accepts text then none else some (settings.invalid parameter (.unusable (wrong text)))
    | _ => none

theorem fault?_eq_none_iff {settings : Settings} {requirement : Requirement} :
    requirement.fault? settings = none ↔ requirement.Met settings := by
  cases requirement with
  | typed parameter type required =>
      rw [fault?, Met, Entries.mem_names_iff]
      cases settings.values.get? parameter with
      | none => simp
      | some value => simp
  | formed parameter accepts wrong =>
      rw [fault?, Met]
      rcases settings.values.get? parameter with _ | (_ | _ | _ | text | _ | _)
      case some.string => simp
      all_goals exact iff_of_true rfl nofun

end Requirement

/-- What a visitor asks of its parameters, in the order in which it looks at them. -/
structure Signature where
  visitor : String
  requirements : List Requirement

namespace Signature

/-- All parameters that the visitor knows. -/
def parameters (signature : Signature) : List String :=
  signature.requirements.filterMap Requirement.parameter?

def changeText : Signature := ⟨"change-text", [.typed "toText" .text true]⟩

def isIdentifier (parameter : String) : Requirement :=
  .formed parameter Java.isIdentifier fun text => "`" ++ text ++ "` is not an identifier"

def renameIdentifier : Signature where
  visitor := "rename-identifier"
  requirements := [.typed "from" .text true, .typed "to" .text true,
    isIdentifier "from", isIdentifier "to"]

def findIdentifier : Signature where
  visitor := "find-identifier"
  requirements := [.typed "name" .text true, .typed "description" .text false]

/-- A name of which something is left without the signs in front of it. -/
def removeAnnotations : Signature where
  visitor := "remove-annotation"
  requirements := [.typed "name" .text true,
    .formed "name" (fun text => text.toList.any (· ≠ '@')) fun _ => "empty annotation name"]

def addImport : Signature where
  visitor := "add-import"
  requirements := [.typed "typeName" .text true,
    .formed "typeName" AddImport.isQualified fun text => "`" ++ text ++ "` is not a qualified name",
    .typed "static" .bool false]

def blankLines : Signature where
  visitor := "blank-lines"
  requirements := [.typed "keepMaximumInDeclarations" .natural false,
    .typed "keepMaximumBeforeEndOfBlock" .natural false,
    .typed "minimumAfterPackage" .natural false, .typed "minimumAfterImports" .natural false,
    .typed "minimumAroundClass" .natural false, .typed "minimumAfterClassHeader" .natural false,
    .typed "minimumAroundField" .natural false, .typed "minimumAroundMethod" .natural false,
    .typed "minimumAroundInitializer" .natural false]

def all : List Signature :=
  [blankLines, addImport, removeAnnotations, findIdentifier, renameIdentifier, changeText]

end Signature

/-! ## Violations -/

namespace Settings

/-- The given parameters that the visitor does not know, in the order of their names. -/
def strays (settings : Settings) (known : List String) : List String :=
  settings.values.names.filter fun name => !known.contains name

def violationsOf (settings : Settings) (signature : Signature) : List RecipeFault :=
  ((settings.strays signature.parameters).map fun name => settings.invalid name .unknown) ++
    signature.requirements.flatMap fun requirement => (requirement.fault? settings).toList

/-- Everything that is wrong with an entry. -/
def violations (settings : Settings) : List RecipeFault :=
  match Signature.all.find? (·.visitor = settings.visitor) with
  | none => [.unknownVisitor settings.visitor]
  | some signature => settings.violationsOf signature

/-- The visitor is one that there is, it knows all parameters that are given, and all its
requirements are met. -/
def Accepted (settings : Settings) : Prop :=
  ∃ signature ∈ Signature.all, signature.visitor = settings.visitor ∧
    (∀ name ∈ settings.values.names, name ∈ signature.parameters) ∧
    ∀ requirement ∈ signature.requirements, requirement.Met settings

end Settings

namespace Document

/-- What is wrong with how often the document is to be applied. -/
def iterationViolations (document : Document) : List RecipeFault :=
  match document.mode, document.maxCycles with
  | .singlePass, some _ => [.document .strayCycles]
  | .untilStable, some 0 => [.document .noCycles]
  | _, _ => []

/-- Everything that is wrong with a document, the name first, then the iteration, then the
entries. -/
def violations (document : Document) : List RecipeFault :=
  (if document.name.toList.any (!Text.isBlank ·) then [] else [.document .blankName]) ++
    (document.iterationViolations ++ document.visitors.flatMap Settings.violations)

/-- The name shows, the cycles go with the iteration, and all entries are accepted. -/
structure Accepted (document : Document) : Prop where
  name : ∃ c ∈ document.name.toList, Text.isBlank c = false
  singlePass : document.mode = .singlePass → document.maxCycles = none
  untilStable : document.mode = .untilStable → document.maxCycles ≠ some 0
  visitors : ∀ settings ∈ document.visitors, settings.Accepted

/-- How often the document is to be applied. -/
def requested (document : Document) : Iteration :=
  match document.mode with
  | .singlePass => .singlePass
  | .untilStable => .untilStable (document.maxCycles.getD 3)

end Document

/-! ## The first violation -/

section

variable {α β : Type} {faults others : List RecipeFault} {first : Except RecipeFault α}
  {good : α → Prop} {better : β → Prop}

/-- It fails with the first of the faults, or it gives a good value if there are none. -/
def FailsFirst (faults : List RecipeFault) (result : Except RecipeFault α)
    (good : α → Prop) : Prop :=
  match faults with
  | [] => ∃ value, result = .ok value ∧ good value
  | fault :: _ => result = .error fault

theorem FailsFirst.bind {next : α → Except RecipeFault β} (here : FailsFirst faults first good)
    (behind : ∀ value, good value → FailsFirst others (next value) better) :
    FailsFirst (faults ++ others) (first >>= next) better := by
  cases faults with
  | nil =>
      rcases here with ⟨value, rfl, isGood⟩
      exact behind value isGood
  | cons fault rest =>
      cases here
      rfl

theorem FailsFirst.pure {value : α} (isGood : good value) :
    FailsFirst [] (pure value : Except RecipeFault α) good := ⟨value, rfl, isGood⟩

theorem FailsFirst.map {change : α → β} (here : FailsFirst faults first good)
    (improves : ∀ value, good value → better (change value)) :
    FailsFirst faults (first >>= fun value => Pure.pure (change value)) better := by
  have whole := here.bind fun value isGood => FailsFirst.pure (improves value isGood)
  rwa [List.append_nil] at whole

theorem FailsFirst.error_iff (fails : FailsFirst faults first good) (fault : RecipeFault) :
    first = .error fault ↔ faults.head? = some fault := by
  cases faults with
  | nil =>
      rcases fails with ⟨value, rfl, -⟩
      exact iff_of_false nofun nofun
  | cons other rest =>
      cases fails
      rw [Except.error.injEq, List.head?_cons, Option.some.injEq]

theorem FailsFirst.ok_iff (fails : FailsFirst faults first good) :
    (∃ value, first = .ok value) ↔ faults = [] := by
  cases faults with
  | nil =>
      rcases fails with ⟨value, rfl, -⟩
      exact iff_of_true ⟨value, rfl⟩ rfl
  | cons other rest =>
      cases fails
      exact iff_of_false nofun nofun

theorem FailsFirst.good_of_ok (fails : FailsFirst faults first good) {value : α}
    (made : first = .ok value) : good value := by
  cases faults with
  | nil =>
      rcases fails with ⟨other, rfl, isGood⟩
      cases made
      exact isGood
  | cons other rest =>
      cases fails
      cases made

end

/-! ## Parameters -/

namespace Settings

variable (settings : Settings)

theorem expectOnly_failsFirst (known : List String) :
    FailsFirst ((settings.strays known).map fun name => settings.invalid name .unknown)
      (settings.expectOnly known) fun _ => True := by
  rw [expectOnly, strays, ← List.head?_filter]
  cases settings.values.names.filter fun name => !known.contains name with
  | nil => exact ⟨(), rfl, trivial⟩
  | cons name rest => rfl

theorem optional_failsFirst {α : Type} {read : Json.Value → Option α} {type : ParameterType}
    (reads : ∀ value, (read value).isSome = type.accepts value) (parameter : String) :
    FailsFirst ((Requirement.typed parameter type false).fault? settings).toList
      (settings.optional parameter read type.fault)
      fun content => content = (settings.values.get? parameter).bind read := by
  rw [optional, Requirement.fault?]
  cases settings.values.get? parameter with
  | none => exact ⟨none, rfl, rfl⟩
  | some value =>
      simp only [← reads value, Option.bind_some]
      cases read value with
      | none => rfl
      | some content => exact ⟨some content, rfl, rfl⟩

theorem isSome_string? (value : Json.Value) :
    value.string?.isSome = ParameterType.text.accepts value := by
  cases value <;> rfl

theorem isSome_bool? (value : Json.Value) : value.bool?.isSome =
    ParameterType.bool.accepts value := by
  cases value <;> rfl

theorem isSome_nat? (value : Json.Value) :
    value.nat?.isSome = ParameterType.natural.accepts value := by
  rcases value with _ | _ | ((_ | _) | _) | _ | _ | _ <;> rfl

theorem requiredText_failsFirst (parameter : String) :
    FailsFirst ((Requirement.typed parameter .text true).fault? settings).toList
      (settings.requiredText parameter)
      fun text => settings.values.get? parameter = some (.string text) := by
  rw [requiredText, optionalText, optional, Requirement.fault?]
  cases settings.values.get? parameter with
  | none => rfl
  | some value =>
      cases value with
      | string text => exact ⟨text, rfl, rfl⟩
      | _ => rfl

theorem formed_failsFirst {α : Type} {parameter text : String} {accepts : String → Bool}
    {wrong : String → String} (given : settings.values.get? parameter = some (.string text))
    {faults : List RecipeFault} {next : Except RecipeFault α} {good : α → Prop}
    (behind : FailsFirst faults next good) :
    FailsFirst (((Requirement.formed parameter accepts wrong).fault? settings).toList ++ faults)
      (if !accepts text then .error (settings.invalid parameter (.unusable (wrong text))) else next)
      good := by
  rw [Requirement.fault?, given]
  cases accepted : accepts text with
  | true => simpa [accepted] using behind
  | false => simp [accepted, FailsFirst]

end Settings

/-! ## Visitors -/

namespace ChangeText

theorem ofSettings_failsFirst (settings : Settings) :
    FailsFirst (settings.violationsOf .changeText) (ofSettings settings) fun _ => True := by
  simp only [Settings.violationsOf, Signature.changeText, List.flatMap_cons, List.flatMap_nil]
  refine (settings.expectOnly_failsFirst _).bind fun _ _ => ?_
  refine (settings.requiredText_failsFirst "toText").bind fun _ _ => ?_
  exact .pure trivial

end ChangeText

namespace RenameIdentifier

theorem checkName_failsFirst {settings : Settings} {parameter spelling : String}
    (given : settings.values.get? parameter = some (.string spelling)) :
    FailsFirst ((Signature.isIdentifier parameter).fault? settings).toList
      (checkName settings parameter spelling) fun _ => True := by
  rw [checkName, Signature.isIdentifier, Requirement.fault?, given]
  cases identifier : Java.isIdentifier spelling with
  | true => simp [identifier, FailsFirst]
  | false => simp [identifier, FailsFirst]

theorem ofSettings_failsFirst (settings : Settings) :
    FailsFirst (settings.violationsOf .renameIdentifier) (ofSettings settings) fun _ => True := by
  simp only [Settings.violationsOf, Signature.renameIdentifier, List.flatMap_cons, List.flatMap_nil]
  refine (settings.expectOnly_failsFirst _).bind fun _ _ => ?_
  refine (settings.requiredText_failsFirst "from").bind fun old isOld => ?_
  refine (settings.requiredText_failsFirst "to").bind fun new isNew => ?_
  refine (checkName_failsFirst isOld).bind fun _ _ => ?_
  refine (checkName_failsFirst isNew).bind fun _ _ => ?_
  exact .pure trivial

end RenameIdentifier

namespace FindIdentifier

theorem ofSettings_failsFirst (settings : Settings) :
    FailsFirst (settings.violationsOf .findIdentifier) (ofSettings settings) fun _ => True := by
  simp only [Settings.violationsOf, Signature.findIdentifier, List.flatMap_cons, List.flatMap_nil]
  refine (settings.expectOnly_failsFirst _).bind fun _ _ => ?_
  refine (settings.requiredText_failsFirst "name").bind fun _ _ => ?_
  refine (settings.optional_failsFirst Settings.isSome_string? "description").bind fun _ _ => ?_
  exact .pure trivial

end FindIdentifier

namespace RemoveAnnotations

theorem isEmpty_withoutSigns (written : String) :
    (withoutSigns written).isEmpty = !written.toList.any (· ≠ '@') := by
  rw [Bool.eq_iff_iff, withoutSigns, String.isEmpty_iff, ← String.toList_eq_nil_iff,
    String.toList_ofList, List.dropWhile_eq_nil_iff]
  simp

theorem ofSettings_failsFirst (settings : Settings) :
    FailsFirst (settings.violationsOf .removeAnnotations) (ofSettings settings) fun _ => True := by
  simp only [Settings.violationsOf, Signature.removeAnnotations,
    List.flatMap_cons, List.flatMap_nil]
  refine (settings.expectOnly_failsFirst _).bind fun _ _ => ?_
  refine (settings.requiredText_failsFirst "name").bind fun written given => ?_
  simp only [isEmpty_withoutSigns]
  exact settings.formed_failsFirst given (.pure trivial)

end RemoveAnnotations

namespace AddImport

theorem ofSettings_failsFirst (settings : Settings) :
    FailsFirst (settings.violationsOf .addImport) (ofSettings settings) fun _ => True := by
  simp only [Settings.violationsOf, Signature.addImport, List.flatMap_cons, List.flatMap_nil]
  refine (settings.expectOnly_failsFirst _).bind fun _ _ => ?_
  refine (settings.requiredText_failsFirst "typeName").bind fun imported given => ?_
  refine settings.formed_failsFirst given ?_
  refine (settings.optional_failsFirst Settings.isSome_bool? "static").bind fun _ _ => ?_
  exact .pure trivial

end AddImport

namespace BlankLines

theorem ofSettings_failsFirst (settings : Settings) :
    FailsFirst (settings.violationsOf .blankLines) (ofSettings settings) fun _ => True := by
  -- A limit that is missing is never a fault, whatever stands in for it.
  have limit (parameter : String) (default : UInt64) : FailsFirst
      ((Requirement.typed parameter .natural false).fault? settings).toList
      (settings.optionalNat parameter >>= fun value =>
        Pure.pure ((value.map UInt64.ofNat).getD default))
      fun _ => True :=
    (settings.optional_failsFirst Settings.isSome_nat? parameter).map fun _ _ => trivial
  simp only [Settings.violationsOf, Signature.blankLines, List.flatMap_cons, List.flatMap_nil]
  refine (settings.expectOnly_failsFirst _).bind fun _ _ => ?_
  refine (limit _ _).bind fun _ _ => (limit _ _).bind fun _ _ => (limit _ _).bind fun _ _ => ?_
  refine (limit _ _).bind fun _ _ => (limit _ _).bind fun _ _ => (limit _ _).bind fun _ _ => ?_
  refine (limit _ _).bind fun _ _ => (limit _ _).bind fun _ _ => (limit _ _).bind fun _ _ => ?_
  exact .pure trivial

end BlankLines

/-! ## The catalog -/

def VisitorKind.Follows (kind : VisitorKind) (signature : Signature) : Prop :=
  ∀ settings : Settings, FailsFirst (settings.violationsOf signature) (kind.make settings)
    fun visitor => visitor.name = signature.visitor

theorem follows_of_ofSettings {Edit : Type} {summary : String} {signature : Signature}
    {ofSettings : Settings → Except RecipeFault Edit} {visitor : Edit → Visitor}
    (fails : ∀ settings,
      FailsFirst (settings.violationsOf signature) (ofSettings settings) fun _ => True)
    (named : ∀ edit, (visitor edit).name = signature.visitor) : VisitorKind.Follows
      ⟨summary, fun settings => do return visitor (← ofSettings settings)⟩ signature :=
  fun settings => (fails settings).map fun edit _ => named edit

namespace Catalog

def Follows (catalog : Catalog) (signatures : List Signature) : Prop :=
  ∀ name, Option.Rel VisitorKind.Follows (catalog.get? name) (signatures.find? (·.visitor = name))

theorem Follows.insert {catalog : Catalog} {signatures : List Signature} {kind : VisitorKind}
    (follows : catalog.Follows signatures) {signature : Signature}
    (alike : kind.Follows signature) :
    Catalog.Follows (Entries.insert catalog signature.visitor kind) (signature :: signatures) := by
  intro name
  rw [Entries.get?_insert, List.find?_cons]
  by_cases here : name = signature.visitor
  · rw [if_pos here, decide_eq_true here.symm]
    exact .some alike
  · rw [if_neg here, decide_eq_false (Ne.symm here)]
    exact follows name

theorem standard_follows : Catalog.standard.Follows Signature.all := by
  have empty : Catalog.Follows Entries.empty [] := fun _ => .none
  exact (((((empty.insert
    (follows_of_ofSettings ChangeText.ofSettings_failsFirst fun _ => rfl)).insert
    (follows_of_ofSettings RenameIdentifier.ofSettings_failsFirst fun _ => rfl)).insert
    (follows_of_ofSettings FindIdentifier.ofSettings_failsFirst fun _ => rfl)).insert
    (follows_of_ofSettings RemoveAnnotations.ofSettings_failsFirst fun _ => rfl)).insert
    (follows_of_ofSettings AddImport.ofSettings_failsFirst fun _ => rfl)).insert
    (follows_of_ofSettings BlankLines.ofSettings_failsFirst fun _ => rfl)

theorem create_failsFirst (settings : Settings) :
    FailsFirst settings.violations (standard.create settings)
      fun visitor => visitor.name = settings.visitor := by
  have follows := standard_follows settings.visitor
  rw [Settings.violations, create]
  generalize standard.get? settings.visitor = kind at follows ⊢
  cases listed : Signature.all.find? (·.visitor = settings.visitor) with
  | none =>
      rw [listed] at follows
      cases follows
      rfl
  | some signature =>
      have named : signature.visitor = settings.visitor := by simpa using List.find?_some listed
      rw [listed] at follows
      cases follows with
      | some alike => exact named ▸ alike settings

end Catalog

/-! ## Documents -/

namespace Settings

variable {settings : Settings}

theorem violationsOf_eq_nil_iff {signature : Signature} :
    settings.violationsOf signature = [] ↔
      (∀ name ∈ settings.values.names, name ∈ signature.parameters) ∧
        ∀ requirement ∈ signature.requirements, requirement.Met settings := by
  simp [violationsOf, strays, ← Requirement.fault?_eq_none_iff]

theorem violations_eq_nil_iff : settings.violations = [] ↔ settings.Accepted := by
  -- The signature that is found is the only one of its name.
  have different : (Signature.all.map (·.visitor)).Nodup := by decide
  rw [violations]
  cases listed : Signature.all.find? (·.visitor = settings.visitor) with
  | none =>
      refine iff_of_false nofun ?_
      rintro ⟨signature, member, named, -⟩
      exact List.find?_eq_none.1 listed signature member (decide_eq_true named)
  | some signature =>
      have member := List.mem_of_find?_eq_some listed
      have named : signature.visitor = settings.visitor := by simpa using List.find?_some listed
      refine violationsOf_eq_nil_iff.trans ⟨fun met => ⟨signature, member, named, met⟩, ?_⟩
      rintro ⟨other, alsoMember, alsoNamed, met⟩
      rwa [List.inj_on_of_nodup_map different member alsoMember (named.trans alsoNamed.symm)]

end Settings

namespace Document

variable {document : Document}

theorem iteration_failsFirst : FailsFirst document.iterationViolations
    (document.iteration.mapError .document) fun iteration => iteration = document.requested := by
  rw [iterationViolations, iteration, requested]
  rcases document.mode with _ | _ <;> rcases document.maxCycles with _ | (_ | cycles)
  case singlePass.none | untilStable.none | untilStable.some.succ => exact ⟨_, rfl, rfl⟩
  all_goals rfl

theorem createVisitors_failsFirst (entries : List Settings) :
    FailsFirst (entries.flatMap Settings.violations) (createVisitors .standard entries)
      fun visitors => visitors.map (·.name) = entries.map (·.visitor) := by
  induction entries with
  | nil => exact ⟨[], rfl, rfl⟩
  | cons settings rest induction =>
      refine (Catalog.create_failsFirst settings).bind fun visitor named => ?_
      refine induction.map fun visitors alike => ?_
      rw [List.map_cons, List.map_cons, named, alike]

theorem iterationViolations_eq_nil_iff : document.iterationViolations = [] ↔
    (document.mode = .singlePass → document.maxCycles = none) ∧
      (document.mode = .untilStable → document.maxCycles ≠ some 0) := by
  rw [iterationViolations]
  rcases document.mode with _ | _ <;> rcases document.maxCycles with _ | (_ | cycles) <;> simp

theorem violations_eq_nil_iff : document.violations = [] ↔ document.Accepted := by
  have name : (if document.name.toList.any (!Text.isBlank ·) then []
      else [RecipeFault.document .blankName]) = [] ↔
        ∃ c ∈ document.name.toList, Text.isBlank c = false := by simp
  have entries : document.visitors.flatMap Settings.violations = [] ↔
      ∀ settings ∈ document.visitors, settings.Accepted := by
    simp [Settings.violations_eq_nil_iff]
  rw [violations, List.append_eq_nil_iff, List.append_eq_nil_iff, name, entries,
    iterationViolations_eq_nil_iff]
  exact ⟨fun ⟨shows, ⟨once, again⟩, all⟩ => ⟨shows, once, again, all⟩,
    fun ⟨shows, once, again, all⟩ => ⟨shows, ⟨once, again⟩, all⟩⟩

end Document

/-- What a recipe takes over from the document. -/
structure Recipe.Carries (recipe : Recipe) (document : Document) : Prop where
  name : recipe.name = document.name
  visitors : recipe.visitors.map (·.name) = document.visitors.map (·.visitor)
  iteration : recipe.iteration = document.requested

namespace Document

theorem toRecipe_failsFirst (document : Document) : FailsFirst document.violations
    (document.toRecipe .standard) fun recipe => recipe.Carries document := by
  have blank : Text.isBlankText document.name.toList =
      !document.name.toList.any (!Text.isBlank ·) := by
    simp [Text.isBlankText, List.all_eq_not_any_not]
  rw [violations, toRecipe, blank]
  cases document.name.toList.any (!Text.isBlank ·) with
  | false => rfl
  | true =>
      refine iteration_failsFirst.bind fun iteration requested => ?_
      exact (createVisitors_failsFirst document.visitors).map fun visitors named =>
        ⟨rfl, named, requested⟩

/-- A document becomes a recipe if nothing in it is wrong, and then the recipe carries it;
otherwise it is refused for the first thing that is wrong. Of several parameters that are not
known the one with the least name counts. -/
theorem toRecipe_strict (document : Document) :
    ((∃ recipe, document.toRecipe .standard = .ok recipe) ↔ document.Accepted) ∧
      (document.Accepted ↔
        ∃ recipe : Recipe, document.toRecipe .standard = .ok recipe ∧ recipe.Carries document) ∧
      (∀ fault, document.toRecipe .standard = .error fault ↔
        document.violations.head? = some fault) ∧
      ∀ (settings : Settings) (known : List String), (settings.strays known).Pairwise (· < ·) := by
  have fails := toRecipe_failsFirst document
  have succeeds : (∃ recipe, document.toRecipe .standard = .ok recipe) ↔ document.Accepted :=
    fails.ok_iff.trans violations_eq_nil_iff
  refine ⟨succeeds, ?_, fails.error_iff, fun settings known => settings.values.increasing.filter _⟩
  refine succeeds.symm.trans (exists_congr fun recipe => ?_)
  exact ⟨fun made => ⟨made, fails.good_of_ok made⟩, And.left⟩

end Document

end Verbatim
