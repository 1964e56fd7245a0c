/-! Readers take characters off the front of a text, and give a value with the characters that are
left. -/

namespace Verbatim.Text

abbrev Reader (α : Type) := List Char → Option (α × List Char)

def expectChar (wanted : Char) : List Char → Option (List Char)
  | c :: rest => if c = wanted then some rest else none
  | [] => none

def expectChars : List Char → List Char → Option (List Char)
  | [], cs => some cs
  | wanted :: more, cs => do expectChars more (← expectChar wanted cs)

/-! Digits. -/

def digitValue (c : Char) : Nat := c.toNat - '0'.toNat

def takeDigits (cs : List Char) : List Char × List Char := cs.span Char.isDigit

def hexValue (c : Char) : Option Nat :=
  if '0' ≤ c ∧ c ≤ '9' then some (c.toNat - '0'.toNat)
  else if 'a' ≤ c ∧ c ≤ 'f' then some (c.toNat - 'a'.toNat + 10)
  else if 'A' ≤ c ∧ c ≤ 'F' then some (c.toNat - 'A'.toNat + 10)
  else none

def hexNumber (digits : List Char) : Option Nat :=
  digits.foldlM (fun value c => (hexValue c).map (value * 16 + ·)) 0

end Verbatim.Text
