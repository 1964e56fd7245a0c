import Verbatim.Text.CharRange

/-! White space in running text: the ten ranges of the Unicode property White_Space. Formatting
between tokens uses a smaller set of its own. -/

namespace Verbatim.Text

def blankRanges : List (Nat × Nat) :=
  [(0x9, 0xd), (0x20, 0x20), (0x85, 0x85), (0xa0, 0xa0), (0x1680, 0x1680), (0x2000, 0x200a),
   (0x2028, 0x2029), (0x202f, 0x202f), (0x205f, 0x205f), (0x3000, 0x3000)]

def isBlank (c : Char) : Bool := inRanges blankRanges c

/-- The text without white space at its end. -/
def trimEnd (cs : List Char) : List Char := (cs.reverse.dropWhile isBlank).reverse

def isBlankText (cs : List Char) : Bool := cs.all isBlank

end Verbatim.Text
