import PlainC.Fault
import PlainC.Log

set_option autoImplicit false

/-!
Checks: computations that note in the log what they do and end with the first fault, if there is
one.
-/

namespace PlainC

/-- A check of a part of a program. -/
abbrev Checked (α : Type) := Logged Fault α

namespace Checked

variable {α : Type}

def refuse (cause : Cause) (place : Place) : Checked α := Logged.fail ⟨cause, place⟩

def violate (violation : Violation) (place : Place) : Checked α :=
  refuse (.violation violation) place

/-- The refusal of what stands where something else is wanted. -/
def unexpected (wanted : Wanted) (instead : Lexeme) : Checked α :=
  refuse (.unexpected wanted instead.value) instead.place

/-- What must stand in a slot. -/
def require (wanted : Wanted) : Slot α → Checked α
  | .found value => pure value
  | .missing instead => unexpected wanted instead

/-- A mark that must stand in a slot. -/
def requireMark (mark : Delimiter) (slot : Slot Place) : Checked Unit := do
  let _ ← require (.mark mark) slot

/-- The value of a literal. -/
def ofLiteral (place : Place) : Except LiteralError α → Checked α
  | .ok value => pure value
  | .error error => refuse (.literal error) place

/-- Notes that the reading went back over some tokens to a place. -/
def backtracked (count : Nat) (place : Place) : Checked Unit :=
  Logged.write (.backtracked (place.index + count) place.index place.line)

end Checked

end PlainC
