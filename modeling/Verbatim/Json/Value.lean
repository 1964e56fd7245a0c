import Verbatim.Entries
import Verbatim.Json.Double

/-! JSON values. The entries of an object are kept in the order they were written, a name that is
written twice included; `sorted` gives the form in which a name counts once. -/

namespace Verbatim.Json

/-- Whole numbers from -2^63 up to 2^64 - 1 are kept as such, all others are doubles. -/
inductive Number where
  | whole (value : Int)
  | double (value : Double)
  deriving DecidableEq, Repr

inductive Value where
  | null
  | bool (value : Bool)
  | number (value : Number)
  | string (value : String)
  | array (items : List Value)
  | object (entries : List (String × Value))
  deriving Repr, Inhabited

namespace Value

def whole (value : Int) : Value := .number (.whole value)

def ofNat (value : Nat) : Value := .number (.whole value)

def ofOption (write : α → Value) : Option α → Value
  | none => .null
  | some value => write value

def isNull : Value → Bool
  | .null => true
  | _ => false

def string? : Value → Option String
  | .string value => some value
  | _ => none

def bool? : Value → Option Bool
  | .bool value => some value
  | _ => none

def int? : Value → Option Int
  | .number (.whole value) => some value
  | _ => none

/-- Doubles are not whole numbers here, even when they have no fraction. -/
def nat? : Value → Option Nat
  | .number (.whole (.ofNat value)) => some value
  | _ => none

def items? : Value → Option (List Value)
  | .array items => some items
  | _ => none

def entries? : Value → Option (List (String × Value))
  | .object entries => some entries
  | _ => none

/-- A choice without content is its name, or an object that gives null to that name. -/
def choice? : Value → Option String
  | .string name => some name
  | .object [(name, .null)] => some name
  | _ => none

/-- The last entry of that name. -/
def field? (value : Value) (name : String) : Option Value :=
  (value.entries?.getD []).reverse.lookup name

end Value

mutual

/-- The value with the entries of every object in it sorted. -/
def Value.sorted : Value → Value
  | .array items => .array (sortedItems items)
  | .object entries => .object (Entries.ofList (sortedValues entries)).toList
  | value => value

def sortedItems : List Value → List Value
  | [] => []
  | value :: rest => value.sorted :: sortedItems rest

def sortedValues : List (String × Value) → List (String × Value)
  | [] => []
  | (name, value) :: rest => (name, value.sorted) :: sortedValues rest

end

end Verbatim.Json
