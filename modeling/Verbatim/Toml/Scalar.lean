import Verbatim.Text.Reader
import Verbatim.Toml.Value

/-! Reading numbers, dates and strings. -/

namespace Verbatim.Toml

open Text (Reader expectChar digitValue hexValue hexNumber)

/-! ## Numbers -/

/-- More digits, each of which may have a low line in front of it. The low lines are dropped. -/
def takeMoreDigits (isDigit : Char → Bool) : List Char → List Char × List Char
  | [] => ([], [])
  | '_' :: c :: rest =>
    if isDigit c then
      let (digits, rest) := takeMoreDigits isDigit rest
      (c :: digits, rest)
    else ([], '_' :: c :: rest)
  | c :: rest =>
    if isDigit c then
      let (digits, rest) := takeMoreDigits isDigit rest
      (c :: digits, rest)
    else ([], c :: rest)

def readDigits (isDigit : Char → Bool) : Reader (List Char)
  | [] => none
  | c :: rest =>
    if isDigit c then
      let (digits, rest) := takeMoreDigits isDigit rest
      some (c :: digits, rest)
    else none

def readSign : List Char → Bool × List Char
  | '-' :: rest => (true, rest)
  | '+' :: rest => (false, rest)
  | cs => (false, cs)

/-- A whole number does not start with a zero, unless it is zero. -/
def readWhole : Reader (List Char)
  | '0' :: rest => some (['0'], rest)
  | cs => readDigits Char.isDigit cs

def readFraction : Reader (Option (List Char))
  | '.' :: rest => (readDigits Char.isDigit rest).map fun (digits, rest) => (some digits, rest)
  | cs => some (none, cs)

def decimalNumber (digits : List Char) : Nat :=
  digits.foldl (fun value c => value * 10 + digitValue c) 0

def signedNumber (negative : Bool) (value : Nat) : Int := if negative then -value else value

def readExponent : Reader (Option Int)
  | [] => some (none, [])
  | c :: rest =>
    if c = 'e' ∨ c = 'E' then do
      let (negative, rest) := readSign rest
      let (digits, rest) ← readDigits Char.isDigit rest
      return (some (signedNumber negative (decimalNumber digits)), rest)
    else some (none, c :: rest)

/-- Integers have 64 bits. -/
def integer? (value : Int) : Option Value :=
  if -9223372036854775808 ≤ value ∧ value ≤ 9223372036854775807 then some (.integer value)
  else none

/-- A number that is too large for a double is refused. -/
def float? (negative : Bool) (whole fraction : List Char) (exponent : Int) : Option Value :=
  (Json.Double.ofDecimal negative (decimalNumber (whole ++ fraction))
    (exponent - fraction.length)).map fun value => .float (some value)

def readUnsigned (negative : Bool) (cs : List Char) : Option (Value × List Char) := do
  let (whole, cs) ← readWhole cs
  let (fraction, cs) ← readFraction cs
  let (exponent, cs) ← readExponent cs
  let value ← match fraction, exponent with
    | none, none => integer? (signedNumber negative (decimalNumber whole))
    | _, _ => float? negative whole (fraction.getD []) (exponent.getD 0)
  return (value, cs)

def readInBase (base : Nat) (isDigit : Char → Bool) (cs : List Char) :
    Option (Value × List Char) := do
  let (digits, cs) ← readDigits isDigit cs
  let number ← digits.foldlM (fun value c => (hexValue c).map (value * base + ·)) 0
  return (← integer? number, cs)

def readNumber : Reader Value
  | '0' :: 'x' :: rest => readInBase 16 (fun c => (hexValue c).isSome) rest
  | '0' :: 'o' :: rest => readInBase 8 (fun c => '0' ≤ c && c ≤ '7') rest
  | '0' :: 'b' :: rest => readInBase 2 (fun c => c = '0' || c = '1') rest
  | cs =>
    match readSign cs with
    | (_, 'i' :: 'n' :: 'f' :: rest) => some (.float none, rest)
    | (_, 'n' :: 'a' :: 'n' :: rest) => some (.float none, rest)
    | (negative, rest) => readUnsigned negative rest

/-! ## Dates and times -/

/-- So many digits, and the number they make. -/
def readFixed (count : Nat) : Reader (List Char × Nat) := fun cs =>
  let digits := cs.take count
  if digits.length = count ∧ digits.all Char.isDigit then
    some ((digits, decimalNumber digits), cs.drop count)
  else none

def readBounded (least greatest : Nat) : Reader (List Char × Nat) := fun cs => do
  let ((digits, value), cs) ← readFixed 2 cs
  if least ≤ value ∧ value ≤ greatest then return ((digits, value), cs) else none

def isLeapYear (year : Nat) : Bool :=
  year % 4 = 0 && (year % 100 ≠ 0 || year % 400 = 0)

def daysIn (year month : Nat) : Nat :=
  if month = 2 then if isLeapYear year then 29 else 28
  else if [4, 6, 9, 11].contains month then 30
  else 31

def readDate : Reader (List Char) := fun cs => do
  let ((yearDigits, year), cs) ← readFixed 4 cs
  let cs ← expectChar '-' cs
  let ((monthDigits, month), cs) ← readBounded 1 12 cs
  let cs ← expectChar '-' cs
  let ((dayDigits, _), cs) ← readBounded 1 (daysIn year month) cs
  return (yearDigits ++ '-' :: monthDigits ++ '-' :: dayDigits, cs)

/-- Nine digits of a fraction count; zeros at its end are dropped. -/
def shortFraction (digits : List Char) : List Char :=
  match ((digits.take 9).reverse.dropWhile (· = '0')).reverse with
  | [] => []
  | digits => '.' :: digits

def readSecondFraction : Reader (List Char)
  | '.' :: rest =>
    let (digits, rest) := Text.takeDigits rest
    if digits.isEmpty then none else some (shortFraction digits, rest)
  | cs => some ([], cs)

/-- There may be a leap second. -/
def readTime : Reader (List Char) := fun cs => do
  let ((hour, _), cs) ← readBounded 0 23 cs
  let cs ← expectChar ':' cs
  let ((minute, _), cs) ← readBounded 0 59 cs
  let cs ← expectChar ':' cs
  let ((second, _), cs) ← readBounded 0 60 cs
  let (fraction, cs) ← readSecondFraction cs
  return (hour ++ ':' :: minute ++ ':' :: second ++ fraction, cs)

def readOffset (sign : Char) : Reader (List Char) := fun cs => do
  let ((hourDigits, hours), cs) ← readBounded 0 23 cs
  let cs ← expectChar ':' cs
  let ((minuteDigits, minutes), cs) ← readBounded 0 59 cs
  let sign := if hours = 0 ∧ minutes = 0 then '+' else sign
  return (sign :: hourDigits ++ ':' :: minuteDigits, cs)

def readZone : Reader (List Char)
  | 'Z' :: rest | 'z' :: rest => some (['Z'], rest)
  | '+' :: rest => readOffset '+' rest
  | '-' :: rest => readOffset '-' rest
  | cs => some ([], cs)

def startsWithDigits (count : Nat) (behind : Char) (cs : List Char) : Bool :=
  match readFixed count cs with
  | some (_, c :: _) => c = behind
  | _ => false

/-- A date starts with the four digits of its year, a time with the two digits of its hour. -/
def startsDate (cs : List Char) : Bool := startsWithDigits 4 '-' cs

def startsTime (cs : List Char) : Bool := startsWithDigits 2 ':' cs

def readDateTime : Reader Value := fun cs => do
  let (date, cs) ← readDate cs
  match cs with
  | c :: rest =>
    if (c = 'T' || c = 't' || c = ' ') && startsTime rest then
      let (time, rest) ← readTime rest
      let (zone, rest) ← readZone rest
      return (.dateTime (String.ofList (date ++ 'T' :: time ++ zone)), rest)
    else return (.dateTime (String.ofList date), c :: rest)
  | [] => return (.dateTime (String.ofList date), [])

def readDateOrNumber : Reader Value := fun cs =>
  if startsDate cs then readDateTime cs
  else if startsTime cs then
    (readTime cs).map fun (time, rest) => (.dateTime (String.ofList time), rest)
  else readNumber cs

/-! ## Strings -/

/-- Control characters do not stand in strings and comments, except for the tab. -/
def isVisible (c : Char) : Bool := c = '\t' || (' ' ≤ c && c ≠ '\x7f')

def cutLineBreak : List Char → Option (List Char)
  | '\n' :: rest => some rest
  | '\r' :: '\n' :: rest => some rest
  | _ => none

def isSpace (c : Char) : Bool := c = ' ' || c = '\t'

def skipSpaces (cs : List Char) : List Char := cs.dropWhile isSpace

def shortEscape : Char → Option Char
  | '"' => some '"'
  | '\\' => some '\\'
  | 'b' => some '\x08'
  | 't' => some '\t'
  | 'n' => some '\n'
  | 'f' => some '\x0c'
  | 'r' => some '\r'
  | _ => none

def readCodePoint (count : Nat) : Reader Char := fun cs => do
  let digits := cs.take count
  if digits.length ≠ count then none
  else
    let number ← hexNumber digits
    if number.isValidChar then return (Char.ofNat number, cs.drop count) else none

def readEscape : Reader Char
  | [] => none
  | 'u' :: rest => readCodePoint 4 rest
  | 'U' :: rest => readCodePoint 8 rest
  | c :: rest => (shortEscape c).map (·, rest)

/-- The rest of a string on one line, behind its opening quote; `read` holds the characters so far,
last one first, and `bound` is longer than what is left. -/
def readLineString (escapes : Bool) (quote : Char) (bound read cs : List Char) :
    Option (String × List Char) :=
  match bound, cs with
  | _ :: bound, c :: rest =>
    if c = quote then some (String.ofList read.reverse, rest)
    else if escapes && c = '\\' then do
      let (character, rest) ← readEscape rest
      readLineString escapes quote bound (character :: read) rest
    else if isVisible c then readLineString escapes quote bound (c :: read) rest
    else none
  | _, _ => none

def skipLines : List Char → List Char
  | [] => []
  | '\r' :: '\n' :: rest => skipLines rest
  | c :: rest => if isSpace c || c = '\n' then skipLines rest else c :: rest

/-- What follows a backslash at the end of a line: the text goes on at the next character that is
not white space. -/
def skipContinuation (cs : List Char) : Option (List Char) :=
  (cutLineBreak (skipSpaces cs)).map skipLines

/-- The rest of a string over several lines. Two quotes at most may stand in front of the closing
ones. -/
def readBlockString (escapes : Bool) (quote : Char) (bound read cs : List Char) :
    Option (String × List Char) :=
  match bound, cs with
  | _ :: bound, c :: rest =>
    if c = quote then
      let quotes := cs.takeWhile (· = quote)
      let behind := cs.dropWhile (· = quote)
      if quotes.length < 3 then readBlockString escapes quote bound (quotes ++ read) behind
      else if quotes.length ≤ 5 then
        some (String.ofList (quotes.drop 3 ++ read).reverse, behind)
      else none
    else if escapes && c = '\\' then
      match skipContinuation rest with
      | some rest => readBlockString escapes quote bound read rest
      | none => do
        let (character, rest) ← readEscape rest
        readBlockString escapes quote bound (character :: read) rest
    else
      match cutLineBreak cs with
      | some rest => readBlockString escapes quote bound ('\n' :: read) rest
      | none => if isVisible c then readBlockString escapes quote bound (c :: read) rest else none
  | _, _ => none

/-- Double quotes allow escapes, single quotes do not. -/
def readQuoted (quote : Char) : Reader String := fun cs => do
  let rest ← expectChar quote cs
  readLineString (quote = '"') quote cs [] rest

/-- A line break right behind three opening quotes does not count. -/
def readString (quote : Char) : Reader String := fun cs =>
  match Text.expectChars [quote, quote, quote] cs with
  | some rest => readBlockString (quote = '"') quote cs [] ((cutLineBreak rest).getD rest)
  | none => readQuoted quote cs

end Verbatim.Toml
