import Verbatim.Json.Value
import Verbatim.Text.Reader

/-! Reading JSON texts. -/

namespace Verbatim.Json

open Text (Reader digitValue takeDigits hexNumber expectChar)

/-! Numbers. The significand is collected in 64 bits: digits that do not fit are dropped and, in
front of the point, counted in the exponent. The significand and the power of ten are rounded
separately, so the last digit of a long number may be off by one. -/

def maxWhole : Nat := Nat.pow 2 64 - 1

/-- Take digits as long as the value stays within 64 bits; the others are left over. -/
def collectDigits : Nat → List Char → Nat × List Char
  | value, [] => (value, [])
  | value, c :: rest =>
    let next := value * 10 + digitValue c
    if maxWhole < next then (value, c :: rest) else collectDigits next rest

def largestPower : Nat := 308

def powerOfTen (exponent : Nat) : Double :=
  (Double.ofDecimal false 1 exponent).getD (Double.zero false)

/-- Divide by 10^308 again and again, as long as anything is left. -/
def scaleDown : Nat → Double → Double
  | 0, x => x
  | times + 1, x =>
    if x.isZero then x
    else scaleDown times ((x.divide (powerOfTen largestPower)).getD (Double.zero false))

def doubleOfParts (significand : Nat) (exponent : Int) : Option Double := do
  let x ← Double.ofNat significand
  match exponent with
  | .ofNat up =>
    if up ≤ largestPower then x.multiply (powerOfTen up) else if x.isZero then some x else none
  | .negSucc below =>
    let down := below + 1
    let times := (down - 1) / largestPower
    (scaleDown times x).divide (powerOfTen (down - times * largestPower))

def signed (negative : Bool) (x : Double) : Number :=
  .double (if negative then x.negate else x)

def wholeNumber (negative : Bool) (value : Nat) : Option Number :=
  if !negative then some (.whole value)
  else if value = 0 ∨ Nat.pow 2 63 < value then (Double.ofNat value).map (signed true)
  else some (.whole (-value))

/-- An exponent too large for 32 bits makes a number too large, unless it is zero or the exponent
negative. -/
def maxWrittenExponent : Nat := Nat.pow 2 31 - 1

def numberOfParts (negative : Bool) (integer : List Char) (fraction : Option (List Char))
    (exponent : Option (Bool × List Char)) : Option Number :=
  let (value, dropped) := collectDigits 0 integer
  match fraction, exponent, dropped with
  | none, none, [] => wholeNumber negative value
  | _, _, _ =>
    let digits := fraction.getD []
    let (significand, unread) := collectDigits value digits
    let start : Int := (dropped.length : Int) - (digits.length - unread.length : Nat)
    match exponent with
    | none => (doubleOfParts significand start).map (signed negative)
    | some (below, written) =>
      let size := written.foldl (fun size c => size * 10 + digitValue c) 0
      if maxWrittenExponent < size then
        if significand ≠ 0 ∧ !below then none
        else some (signed negative (Double.zero false))
      else
        (doubleOfParts significand (if below then start - size else start + size)).map
          (signed negative)

/-- The digits in front of the point: a single zero, or digits that do not start with one. -/
def readInteger : Reader (List Char)
  | '0' :: rest => if (rest.head?).any Char.isDigit then none else some (['0'], rest)
  | cs =>
    let (digits, rest) := takeDigits cs
    if digits.isEmpty then none else some (digits, rest)

def readFraction : Reader (Option (List Char))
  | '.' :: rest =>
    let (digits, rest) := takeDigits rest
    if digits.isEmpty then none else some (some digits, rest)
  | cs => some (none, cs)

def readExponentDigits (below : Bool) : Reader (Option (Bool × List Char)) := fun cs =>
  let (digits, rest) := takeDigits cs
  if digits.isEmpty then none else some (some (below, digits), rest)

def readExponent : Reader (Option (Bool × List Char))
  | c :: rest =>
    if c = 'e' ∨ c = 'E' then
      match rest with
      | '+' :: rest => readExponentDigits false rest
      | '-' :: rest => readExponentDigits true rest
      | rest => readExponentDigits false rest
    else some (none, c :: rest)
  | [] => some (none, [])

def readUnsigned (negative : Bool) : Reader Number := fun cs => do
  let (integer, cs) ← readInteger cs
  let (fraction, cs) ← readFraction cs
  let (exponent, cs) ← readExponent cs
  let number ← numberOfParts negative integer fraction exponent
  return (number, cs)

def readNumber : Reader Number
  | '-' :: rest => readUnsigned true rest
  | cs => readUnsigned false cs

/-! Strings. -/

def isLeadingSurrogate (unit : Nat) : Bool := 0xd800 ≤ unit && unit < 0xdc00

def isTrailingSurrogate (unit : Nat) : Bool := 0xdc00 ≤ unit && unit < 0xe000

def singleUnit (unit : Nat) : Option Char :=
  if isLeadingSurrogate unit || isTrailingSurrogate unit then none else some (Char.ofNat unit)

def pairedUnits (leading trailing : Nat) : Option Char :=
  if isLeadingSurrogate leading && isTrailingSurrogate trailing then
    some (Char.ofNat (0x10000 + (leading - 0xd800) * 0x400 + (trailing - 0xdc00)))
  else none

def shortEscape : Char → Option Char
  | '"' => some '"'
  | '\\' => some '\\'
  | '/' => some '/'
  | 'b' => some '\x08'
  | 'f' => some '\x0c'
  | 'n' => some '\n'
  | 'r' => some '\r'
  | 't' => some '\t'
  | _ => none

def readUnit : Reader Nat
  | a :: b :: c :: d :: rest => (hexNumber [a, b, c, d]).map (·, rest)
  | _ => none

/-- What follows a leading surrogate must be the escape of a trailing one. -/
def readTrailing (leading : Nat) : Reader Char
  | '\\' :: 'u' :: rest => do
    let (trailing, rest) ← readUnit rest
    return (← pairedUnits leading trailing, rest)
  | _ => none

def readEscape : Reader Char
  | [] => none
  | 'u' :: rest => do
    let (unit, rest) ← readUnit rest
    if isLeadingSurrogate unit then readTrailing unit rest
    else return (← singleUnit unit, rest)
  | c :: rest => (shortEscape c).map (·, rest)

/-- The rest of a string behind its opening quote; `read` holds the characters so far, last one
first, and `bound` is at least as long as what is left. -/
def readStringRest (bound read cs : List Char) : Option (String × List Char) :=
  match bound, cs with
  | _ :: bound, c :: rest =>
    if c = '"' then some (String.ofList read.reverse, rest)
    else if c = '\\' then do
      let (character, rest) ← readEscape rest
      readStringRest bound (character :: read) rest
    else if c.val < 0x20 then none
    else readStringRest bound (c :: read) rest
  | _, _ => none

def readString : Reader String
  | '"' :: rest => readStringRest rest [] rest
  | _ => none

/-! Values. -/

def isSpacing (c : Char) : Bool := c = ' ' || c = '\t' || c = '\n' || c = '\r'

def skipSpacing (cs : List Char) : List Char := cs.dropWhile isSpacing

/-- Items between commas up to the closing bracket. `bound` is at least as long as what is left to
read; every item takes a character of it. -/
def readItems (readItem : Reader α) (close : Char) (bound : List Char) (cs : List Char) :
    Option (List α × List Char) :=
  match bound with
  | [] => none
  | _ :: bound => do
    let (item, cs) ← readItem (skipSpacing cs)
    match skipSpacing cs with
    | ',' :: cs =>
      let (items, cs) ← readItems readItem close bound cs
      return (item :: items, cs)
    | cs => return ([item], ← expectChar close cs)

def readBody (readItem : Reader α) (close : Char) (cs : List Char) : Option (List α × List Char) :=
  match expectChar close (skipSpacing cs) with
  | some rest => some ([], rest)
  | none => readItems readItem close cs cs

def readEntry (readValue : Reader Value) : Reader (String × Value) := fun cs => do
  let (name, cs) ← readString cs
  let cs ← expectChar ':' (skipSpacing cs)
  let (value, cs) ← readValue (skipSpacing cs)
  return ((name, value), cs)

def readWord (word : String) (value : Value) : Reader Value := fun cs =>
  if word.toList.isPrefixOf cs then some (value, cs.drop word.length) else none

def readScalar : Reader Value := fun cs =>
  match cs with
  | '"' :: _ => (readString cs).map fun (text, rest) => (.string text, rest)
  | 'n' :: _ => readWord "null" .null cs
  | 't' :: _ => readWord "true" (.bool true) cs
  | 'f' :: _ => readWord "false" (.bool false) cs
  | _ => (readNumber cs).map fun (number, rest) => (.number number, rest)

/-- A value in which brackets are nested at most `depth` deep. -/
def readValue : Nat → Reader Value
  | 0, cs => readScalar cs
  | depth + 1, '[' :: rest =>
    (readBody (readValue depth) ']' rest).map fun (items, rest) => (.array items, rest)
  | depth + 1, '\x7b' :: rest =>
    (readBody (readEntry (readValue depth)) '\x7d' rest).map
      fun (entries, rest) => (.object entries, rest)
  | _, cs => readScalar cs

/-- A whole text holds one value with white space around it. -/
def readText (depth : Nat) (text : String) : Option Value :=
  match readValue depth (skipSpacing text.toList) with
  | some (value, rest) => if (skipSpacing rest).isEmpty then some value else none
  | none => none

/-- Brackets may be nested this deep. -/
def maxDepth : Nat := 127

def parse (text : String) : Option Value := readText maxDepth text

example : (readNumber "-0".toList).map Prod.fst = some (.double ⟨true, 0, 0⟩) ∧
    (readNumber "18446744073709551615".toList).map Prod.fst = some (.whole 18446744073709551615) ∧
    (readString "\"\\ud83d\\ude00\"".toList).map Prod.fst = some "😀" := by decide

end Verbatim.Json
