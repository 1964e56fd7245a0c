import Verbatim.Text.Invisible

/-! Texts in double quotes as messages show them: quotes, backslashes and the common control
characters have short escapes, other invisible characters are given by number. -/

namespace Verbatim.Text

def lowerHex (n : Nat) : String := String.ofList (Nat.toDigits 16 n)

def escapeForMessage (c : Char) : String :=
  match c with
  | '"' => "\\\""
  | '\\' => "\\\\"
  | '\n' => "\\n"
  | '\r' => "\\r"
  | '\t' => "\\t"
  | '\x00' => "\\0"
  | _ => if isInvisible c then "\\u\x7b" ++ lowerHex c.toNat ++ "\x7d" else c.toString

def quoted (text : String) : String :=
  "\"" ++ String.join (text.toList.map escapeForMessage) ++ "\""

def quotedOption : Option String → String
  | none => "None"
  | some text => "Some(" ++ quoted text ++ ")"

def quotedList (texts : List String) : String :=
  "[" ++ String.intercalate ", " (texts.map quoted) ++ "]"

end Verbatim.Text
