import Verbatim.Json.Double

/-! TOML values. -/

namespace Verbatim.Toml

inductive Value where
  | text (value : String)
  | integer (value : Int)
  /-- Absent for the infinities and for what is not a number. -/
  | float (value : Option Json.Double)
  | bool (value : Bool)
  /-- A date, a time of day or both, as written in the standard form. -/
  | dateTime (value : String)
  | array (items : List Value)
  /-- No name occurs twice. -/
  | table (entries : List (String × Value))
  deriving Repr, Inhabited

namespace Value

def text? : Value → Option String
  | text value => some value
  | _ => none

def nat? : Value → Option Nat
  | integer (.ofNat value) => some value
  | _ => none

def items? : Value → Option (List Value)
  | array items => some items
  | _ => none

def entries? : Value → Option (List (String × Value))
  | table entries => some entries
  | _ => none

/-- A choice without content is its name, or a table that gives something empty to that name. -/
def choice? : Value → Option String
  | text name => some name
  | table [(name, table [])] => some name
  | table [(name, array [])] => some name
  | _ => none

end Value

end Verbatim.Toml
