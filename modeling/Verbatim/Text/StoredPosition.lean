import Verbatim.Text.Position
import Verbatim.Text.Span

/-! Positions as they are stored, with 32 bits for the line and 32 for the column. They are found by
searching the bytes of a text for line breaks; only behind the last one are characters counted. -/

namespace Verbatim

namespace Text

/-- The byte of a line break. -/
def lineBreak : UInt8 := 10

def bytes (text : String) : List UInt8 := text.toByteArray.data.toList

/-- The last place in the list where the byte stands. -/
def lastPlace? (byte : UInt8) : List UInt8 → Option Nat
  | [] => none
  | first :: rest =>
    match lastPlace? byte rest with
    | some place => some (place + 1)
    | none => if first = byte then some 0 else none

/-- The text up to a byte offset, if that lies on a character boundary. -/
def upTo? (text : String) (stop : Nat) : Option String :=
  (Span.mk 0 stop (Nat.zero_le _)).slice? text

/-- The text from a byte offset on, if that lies on a character boundary. -/
def from? (text : String) (start : Nat) : Option String :=
  (Span.mk start (start + (text.utf8ByteSize - start)) (Nat.le_add_right ..)).slice? text

/-- The first boundary on the way back from an offset inside the text. -/
def boundaryBefore (text : String) : Nat → Nat
  | 0 => 0
  | offset + 1 =>
    if String.Pos.Raw.isValid text ⟨offset + 1⟩ then offset + 1 else boundaryBefore text offset

/-- The boundary that stands for an offset: the end for what lies behind it, and the start of a
character for what lies inside. -/
def floorBoundary (text : String) (offset : Nat) : Nat :=
  boundaryBefore text (min offset text.utf8ByteSize)

end Text

structure StoredPosition where
  line : UInt32
  column : UInt32
  deriving DecidableEq, Repr

/-- What is stored of a position. Numbers that need more than 32 bits lose the bits above. -/
def Position.stored (position : Position) : StoredPosition :=
  ⟨.ofNat position.line, .ofNat position.column⟩

namespace StoredPosition

def start : StoredPosition := ⟨1, 1⟩

def position (place : StoredPosition) : Position := ⟨place.line.toNat, place.column.toNat⟩

/-- The position behind `text` when `text` starts at `place`. -/
def advance? (place : StoredPosition) (text : String) : Option StoredPosition :=
  match Text.lastPlace? Text.lineBreak (Text.bytes text) with
  | some last => do
    let behind ← Text.from? text (last + 1)
    return ⟨place.line + .ofNat ((Text.bytes text).count Text.lineBreak), 1 + .ofNat behind.length⟩
  | none => some { place with column := place.column + .ofNat text.length }

/-- The position of a byte offset. -/
def at? (text : String) (offset : Nat) : Option StoredPosition := do
  start.advance? (← Text.upTo? text (Text.floorBoundary text offset))

end StoredPosition

end Verbatim
