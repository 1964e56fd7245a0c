import Verbatim.Toml.Draft
import Verbatim.Toml.Scalar

/-! Reading TOML texts of version 1.0. -/

namespace Verbatim.Toml

open Text (Reader expectChar expectChars)

/-! ## White space and comments -/

def skipFiller : (inComment : Bool) → List Char → Option (List Char)
  | _, [] => some []
  | _, '\n' :: rest => skipFiller false rest
  | _, '\r' :: '\n' :: rest => skipFiller false rest
  | true, c :: rest => if isVisible c then skipFiller true rest else none
  | false, c :: rest =>
    if c = '#' then skipFiller true rest
    else if isSpace c then skipFiller false rest
    else some (c :: rest)

/-- Nothing but a comment may be left on the line. -/
def readLineEnd (cs : List Char) : Option (List Char) :=
  let rest := match skipSpaces cs with
    | '#' :: rest => rest.dropWhile isVisible
    | rest => rest
  if rest.isEmpty then some [] else cutLineBreak rest

/-! ## Keys -/

def isBareKeyChar (c : Char) : Bool := c.isAlphanum || c = '_' || c = '-'

def readSimpleKey : Reader String := fun cs =>
  match cs with
  | '"' :: _ => readQuoted '"' cs
  | '\'' :: _ => readQuoted '\'' cs
  | _ =>
    let name := cs.takeWhile isBareKeyChar
    if name.isEmpty then none else some (String.ofList name, cs.dropWhile isBareKeyChar)

def readKeyParts (bound cs : List Char) : Option (List String × List Char) :=
  match bound with
  | [] => none
  | _ :: bound => do
    let (name, cs) ← readSimpleKey (skipSpaces cs)
    match skipSpaces cs with
    | '.' :: cs => do
      let (names, cs) ← readKeyParts bound cs
      return (name :: names, cs)
    | cs => return ([name], cs)

/-- Tables may be nested less deep than this, in a key or in a value. -/
def depthLimit : Nat := 80

def readKey : Reader (List String) := fun cs => do
  let (names, cs) ← readKeyParts cs cs
  if names.length < depthLimit then return (names, cs) else none

/-! ## Values -/

def readAssignment (readItem : Reader Value) : Reader (List String × Value) := fun cs => do
  let (key, cs) ← readKey cs
  let cs ← expectChar '=' cs
  let (value, cs) ← readItem (skipSpaces cs)
  return ((key, value), cs)

/-- Items of an array. There may be a comma behind the last one. -/
def readItems (readItem : Reader Value) (bound cs : List Char) :
    Option (List Value × List Char) :=
  match bound with
  | [] => none
  | _ :: bound => do
    match ← skipFiller false cs with
    | ']' :: rest => return ([], rest)
    | cs =>
      let (item, cs) ← readItem cs
      match ← skipFiller false cs with
      | ',' :: cs =>
        let (items, cs) ← readItems readItem bound cs
        return (item :: items, cs)
      | cs => return ([item], ← expectChar ']' cs)

/-- Assignments of a table in braces, which stands on one line. -/
def readFields (readItem : Reader Value) (bound cs : List Char) :
    Option (List (List String × Value) × List Char) :=
  match bound with
  | [] => none
  | _ :: bound => do
    let (field, cs) ← readAssignment readItem cs
    match skipSpaces cs with
    | ',' :: cs =>
      let (fields, cs) ← readFields readItem bound cs
      return (field :: fields, cs)
    | cs => return ([field], ← expectChar '\x7d' cs)

def readInlineTable (readItem : Reader Value) : Reader Value := fun cs =>
  match skipSpaces cs with
  | '\x7d' :: rest => some (.table [], rest)
  | _ => do
    let (fields, rest) ← readFields readItem cs cs
    return (← tableOfEntries fields, rest)

def readWord (word : String) (value : Value) : Reader Value := fun cs =>
  (expectChars word.toList cs).map (value, ·)

def readScalar : Reader Value := fun cs =>
  match cs with
  | '"' :: _ => (readString '"' cs).map fun (text, rest) => (.text text, rest)
  | '\'' :: _ => (readString '\'' cs).map fun (text, rest) => (.text text, rest)
  | 't' :: _ => readWord "true" (.bool true) cs
  | 'f' :: _ => readWord "false" (.bool false) cs
  | _ => readDateOrNumber cs

/-- A value in which brackets and braces are nested at most `depth` deep. -/
def readValue : Nat → Reader Value
  | 0, cs => if cs.head? = some '[' ∨ cs.head? = some '\x7b' then none else readScalar cs
  | depth + 1, '[' :: rest =>
    (readItems (readValue depth) rest rest).map fun (items, rest) => (.array items, rest)
  | depth + 1, '\x7b' :: rest => readInlineTable (readValue depth) rest
  | _, cs => readScalar cs

/-! ## Documents -/

def readHeader (closing : String) (openTable : List String → Option Draft) (cs : List Char) :
    Option (Draft × List Char) := do
  let (path, cs) ← readKey cs
  let cs ← readLineEnd (← expectChars closing.toList cs)
  return (← openTable path, cs)

/-- One line, or several if a value takes more; it does not start with a space. -/
def readEntry (draft : Draft) (cs : List Char) : Option (Draft × List Char) :=
  match cs with
  | '[' :: '[' :: rest => readHeader "]]" draft.openElement rest
  | '[' :: rest => readHeader "]" draft.openTable rest
  | '#' :: _ | '\n' :: _ | '\r' :: _ => do return (draft, ← readLineEnd cs)
  | _ => do
    let ((key, value), cs) ← readAssignment (readValue (depthLimit - 1)) cs
    let cs ← readLineEnd cs
    return (← draft.insert key value, cs)

def readEntries (bound : List Char) (draft : Draft) (cs : List Char) : Option Draft :=
  match bound with
  | [] => none
  | _ :: bound =>
    let cs := skipSpaces cs
    if cs.isEmpty then some draft
    else do
      let (draft, cs) ← readEntry draft cs
      readEntries bound draft cs

/-- Some texts start with a mark of their byte order. -/
def dropByteOrderMark : List Char → List Char
  | '\ufeff' :: rest => rest
  | cs => cs

def parse (text : String) : Option Value :=
  (readEntries (text.toList ++ [' ']) .empty (dropByteOrderMark text.toList)).map Draft.close

example : parse "a.b = ['c']\n[[d]]\ne = 1\n" =
    some (.table
      [("a", .table [("b", .array [.text "c"])]), ("d", .array [.table [("e", .integer 1)]])]) := by
  cbv

end Verbatim.Toml
