import Verbatim.Json.Value

/-! The text of JSON values. Only the quote, the backslash and control characters are escaped. -/

namespace Verbatim.Json

def hexDigits (width n : Nat) : String :=
  let digits := Nat.toDigits 16 n
  String.ofList (List.replicate (width - digits.length) '0' ++ digits)

def escapeChar (c : Char) : String :=
  match c with
  | '"' => "\\\""
  | '\\' => "\\\\"
  | '\n' => "\\n"
  | '\r' => "\\r"
  | '\t' => "\\t"
  | '\x08' => "\\b"
  | '\x0c' => "\\f"
  | _ => if c.val < 0x20 then "\\u" ++ hexDigits 4 c.toNat else c.toString

def quote (text : String) : String :=
  "\"" ++ String.join (text.toList.map escapeChar) ++ "\""

def Number.render : Number → String
  | .whole value => toString value
  | .double value => value.render

def renderBool (value : Bool) : String := if value then "true" else "false"

/-! Without any white space. -/

mutual

def Value.compact : Value → String
  | .null => "null"
  | .bool value => renderBool value
  | .number value => value.render
  | .string value => quote value
  | .array items => "[" ++ String.intercalate "," (compactItems items) ++ "]"
  | .object entries => "\x7b" ++ String.intercalate "," (compactEntries entries) ++ "\x7d"

def compactItems : List Value → List String
  | [] => []
  | value :: rest => value.compact :: compactItems rest

def compactEntries : List (String × Value) → List String
  | [] => []
  | (name, value) :: rest => (quote name ++ ":" ++ value.compact) :: compactEntries rest

end

/-! Over several lines, two spaces for each level. -/

def bracketed (opening closing margin : String) (parts : List String) : String :=
  if parts.isEmpty then opening ++ closing
  else
    opening ++ "\n" ++
      String.intercalate ",\n" (parts.map fun part => margin ++ "  " ++ part) ++
      "\n" ++ margin ++ closing

mutual

def Value.prettyAt (margin : String) : Value → String
  | .null => "null"
  | .bool value => renderBool value
  | .number value => value.render
  | .string value => quote value
  | .array items => bracketed "[" "]" margin (prettyItems (margin ++ "  ") items)
  | .object entries => bracketed "\x7b" "\x7d" margin (prettyEntries (margin ++ "  ") entries)

def prettyItems (margin : String) : List Value → List String
  | [] => []
  | value :: rest => value.prettyAt margin :: prettyItems margin rest

def prettyEntries (margin : String) : List (String × Value) → List String
  | [] => []
  | (name, value) :: rest =>
    (quote name ++ ": " ++ value.prettyAt margin) :: prettyEntries margin rest

end

def Value.pretty (value : Value) : String := value.prettyAt ""

example : (Value.object [("a", .array [.null, .string "x"]), ("b", .array [])]).pretty =
    "\x7b\n  \"a\": [\n    null,\n    \"x\"\n  ],\n  \"b\": []\n\x7d" := by decide

end Verbatim.Json
