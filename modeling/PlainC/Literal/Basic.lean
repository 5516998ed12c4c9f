set_option autoImplicit false

/-!
What can be wrong with the text of a literal, and the digits and escapes in it.
-/

namespace PlainC

inductive LiteralError where
  | outOfRange (text : String)
  | malformed (text : String)
  deriving DecidableEq, Repr

namespace LiteralError

/-- The literal at fault. -/
def text : LiteralError → String
  | outOfRange text | malformed text => text

def message : LiteralError → String
  | outOfRange text => "integer literal out of range: " ++ text
  | malformed text => "malformed literal: " ++ text

end LiteralError

/-- The value of a decimal digit, and of a letter as a digit above nine. -/
def digitValue? (radix : Nat) (c : Char) : Option Nat :=
  let value :=
    if '0' ≤ c ∧ c ≤ '9' then c.toNat - '0'.toNat
    else if 'a' ≤ c ∧ c ≤ 'z' then c.toNat - 'a'.toNat + 10
    else if 'A' ≤ c ∧ c ≤ 'Z' then c.toNat - 'A'.toNat + 10
    else radix
  if value < radix then some value else none

namespace Escape

/-- The letters that may follow a backslash, each with the character it then stands for. -/
def table : List (Char × Char) :=
  [('a', '\x07'), ('b', '\x08'), ('f', '\x0c'), ('n', '\n'), ('r', '\r'), ('t', '\t'),
   ('v', '\x0b'), ('\'', '\''), ('"', '"'), ('\\', '\\'), ('0', '\x00')]

/-- The character that a letter behind a backslash stands for. -/
def decode? (letter : Char) : Option Char :=
  table.lookup letter

end Escape

end PlainC
