/-! Byte ranges and the pieces of text they select. -/

namespace Verbatim

structure Span where
  start : Nat
  stop : Nat
  start_le_stop : start ≤ stop
  deriving DecidableEq, Repr

namespace Span

inductive Error where
  | stopsBeforeStart (start stop : Nat)
  deriving DecidableEq, Repr

def Error.message : Error → String
  | .stopsBeforeStart start stop =>
    "Span start (" ++ toString start ++ ") must be <= end (" ++ toString stop ++ ")"

def ofOffsets (start stop : Nat) : Except Error Span :=
  if ordered : start ≤ stop then .ok ⟨start, stop, ordered⟩
  else .error (.stopsBeforeStart start stop)

def length (span : Span) : Nat := span.stop - span.start

def isEmpty (span : Span) : Bool := span.start == span.stop

theorem isEmpty_iff (span : Span) : span.isEmpty ↔ span.length = 0 := by
  have := span.start_le_stop
  simp only [isEmpty, length, beq_iff_eq]
  omega

def display (span : Span) : String :=
  "[" ++ toString span.start ++ ", " ++ toString span.stop ++ ")"

/-- The text between two byte offsets, if both lie on character boundaries inside `text`. -/
def slice? (span : Span) (text : String) : Option String := do
  let first ← text.pos? ⟨span.start⟩
  let last ← text.pos? ⟨span.stop⟩
  return text.extract first last

end Span

end Verbatim
