import Verbatim.Text.Letter
import Verbatim.Tree.Kind

/-! Words of the language. -/

namespace Verbatim.Java

def isWordStart (c : Char) : Bool := Text.isLetter c || c = '_' || c = '$'

def isWordPart (c : Char) : Bool := Text.isLetterOrNumber c || c = '_' || c = '$'

/-- Every identifier is a word; whether it is reserved does not matter here. -/
def isWord : List Char → Bool
  | [] => false
  | first :: rest => isWordStart first && rest.all isWordPart

def isIdentifier (name : String) : Bool := isWord name.toList

def modifiers : List String :=
  ["public", "protected", "private", "static", "final", "abstract", "native", "synchronized",
    "transient", "volatile", "strictfp", "default"]

def primitiveTypes : List String :=
  ["boolean", "byte", "char", "short", "int", "long", "float", "double", "void"]

def reservedWords : List String :=
  ["abstract", "assert", "boolean", "break", "byte", "case", "catch", "char", "class", "const",
    "continue", "default", "do", "double", "else", "enum", "extends", "false", "final", "finally",
    "float", "for", "goto", "if", "implements", "import", "instanceof", "int", "interface", "long",
    "native", "new", "null", "package", "private", "protected", "public", "return", "short",
    "static", "strictfp", "super", "switch", "synchronized", "this", "throw", "throws",
    "transient", "true", "try", "void", "volatile", "while"]

def isReserved (word : String) : Bool := reservedWords.contains word

example : modifiers.all isReserved ∧ primitiveTypes.all isReserved := by decide

/-- What a word is inside a statement or an expression. -/
def wordKind (word : String) : Kind :=
  if ["true", "false", "null"].contains word then .literal
  else if isReserved word then .keyword
  else .identifier

def brackets : List String := ["(", ")", "[", "]", "\x7b", "\x7d"]

def isBracket (text : String) : Bool := brackets.contains text

end Verbatim.Java
