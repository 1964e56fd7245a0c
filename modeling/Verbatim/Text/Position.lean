/-! Lines and columns. Both count from one; a column counts characters, while offsets into a text
count bytes. -/

namespace Verbatim

structure Position where
  line : Nat
  column : Nat
  deriving DecidableEq, Repr

namespace Position

def start : Position := ⟨1, 1⟩

instance : Inhabited Position := ⟨start⟩

/-- Numbers below one are lifted to one. -/
def ofLineColumn (line column : Nat) : Position := ⟨max line 1, max column 1⟩

/-- A line break starts the next line, any other character takes one column. -/
def step (position : Position) (c : Char) : Position :=
  if c = '\n' then ⟨position.line + 1, 1⟩ else ⟨position.line, position.column + 1⟩

def advanceChars (position : Position) (cs : List Char) : Position := cs.foldl step position

/-- The position behind `text` when `text` starts at `position`. -/
def advance (position : Position) (text : String) : Position := position.advanceChars text.toList

@[simp] theorem advance_empty (position : Position) : position.advance "" = position := rfl

theorem advance_append (position : Position) (first second : String) :
    position.advance (first ++ second) = (position.advance first).advance second := by
  simp [advance, advanceChars]

def display (position : Position) : String :=
  toString position.line ++ ":" ++ toString position.column

end Position

namespace Text

/-- The characters that lie wholly within the first `size` bytes. -/
def charsWithin (size : Nat) : List Char → List Char
  | [] => []
  | c :: rest => if c.utf8Size ≤ size then c :: charsWithin (size - c.utf8Size) rest else []

/-- The position of a byte offset. An offset inside a character counts as that character's start,
one past the end as the end. -/
def positionAt (text : String) (offset : Nat) : Position :=
  Position.start.advanceChars (charsWithin offset text.toList)

example : positionAt "é\nb" 2 = ⟨1, 2⟩ ∧ positionAt "é\nb" 1 = ⟨1, 1⟩ ∧
    positionAt "é\nb" 9 = ⟨2, 2⟩ := by decide

end Text

end Verbatim
