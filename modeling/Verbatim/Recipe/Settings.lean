import Verbatim.Recipe.Fault

/-! Settings of a visitor: named values, read by the visitor with the types it wants. -/

namespace Verbatim

structure Settings where
  visitor : String
  values : Entries Json.Value

namespace Settings

/-- Of several values of one name the last counts. -/
def ofList (visitor : String) (values : List (String × Json.Value)) : Settings :=
  ⟨visitor, .ofList (Json.sortedValues values)⟩

def invalid (settings : Settings) (parameter : String) (fault : ParameterFault) : RecipeFault :=
  .invalidParameter settings.visitor parameter fault

/-- A value that may be absent, but must be of the right type if it is given. -/
def optional (settings : Settings) (parameter : String) (read : Json.Value → Option α)
    (fault : Json.Value → ParameterFault) : Except RecipeFault (Option α) :=
  match settings.values.get? parameter with
  | none => .ok none
  | some value =>
    match read value with
    | some content => .ok (some content)
    | none => .error (settings.invalid parameter (fault value))

def optionalText (settings : Settings) (parameter : String) : Except RecipeFault (Option String) :=
  settings.optional parameter Json.Value.string? .notText

def optionalBool (settings : Settings) (parameter : String) : Except RecipeFault (Option Bool) :=
  settings.optional parameter Json.Value.bool? .notBool

def optionalNat (settings : Settings) (parameter : String) : Except RecipeFault (Option Nat) :=
  settings.optional parameter Json.Value.nat? .notNatural

def requiredText (settings : Settings) (parameter : String) : Except RecipeFault String := do
  match ← settings.optionalText parameter with
  | some text => return text
  | none => .error (.missingParameter settings.visitor parameter)

/-- Refuse the first parameter, in the order of names, that is not among the known ones. -/
def expectOnly (settings : Settings) (known : List String) : Except RecipeFault Unit :=
  match settings.values.names.find? fun name => !known.contains name with
  | some name => .error (settings.invalid name .unknown)
  | none => .ok ()

end Settings

end Verbatim
