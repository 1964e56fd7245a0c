import Verbatim.Java.Elements
import Verbatim.Path

/-! The languages that files are read in. -/

namespace Verbatim

structure Language where
  name : String
  claims : String → Bool
  /-- The tree of a text, numbered from the given number on, and the next free number. -/
  read : Nat → String → Except ParseError Node × Nat

namespace Language

def java : Language where
  name := "java"
  claims path := Path.extension? path = some "java"
  read first text := (Java.parseElements first text, Java.nextElement first text)

/-- One token holds a whole plain text. -/
def readPlainText (text : String) : Except ParseError Node :=
  let leaf := (Node.token .plainText text).withLeading .empty
  ((Node.branch .sourceFile [leaf]).withLeading .empty).sealAgainst text

/-- The token is built first. -/
def readPlainElements (first : Nat) (text : String) : Except ParseError Node :=
  let leaf := ((Node.token .plainText text).withLeading .empty).withId ⟨first⟩
  let file := ((Node.branch .sourceFile [leaf]).withLeading .empty).withId ⟨first + 1⟩
  file.sealAgainst text

/-- Every file can be taken as plain text. -/
def plainText : Language where
  name := "text"
  claims _ := true
  read first text := (readPlainElements first text, first + 2)

/-- A file is in the first of the languages that claims it. -/
def standard : List Language := [java, plainText]

def for? (languages : List Language) (path : String) : Option Language :=
  languages.find? (·.claims path)

end Language

end Verbatim
