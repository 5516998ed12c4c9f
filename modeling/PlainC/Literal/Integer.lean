import PlainC.Literal.Basic

set_option autoImplicit false

/-!
Integer literals: hexadecimal behind `0x`, octal behind a leading zero, and else decimal, with the
values of a signed 64-bit word.
-/

namespace PlainC

namespace Integer

/-- The absolute value of the least number: two to the power 63. -/
def maxMagnitude : Nat := 0x8000000000000000

def maxValue : Int := maxMagnitude - 1

def minValue : Int := -maxMagnitude

/-- Whether a number is a value of the signed 64-bit word. -/
def inRange (value : Int) : Bool :=
  minValue ≤ value && value ≤ maxValue

/-- The value of digits behind digits of the value `before`. A value above the limit is refused as
soon as it arises, so a bad character counts only in front of that. -/
def digits (radix limit : Nat) (text : String) (tooLarge : LiteralError) :
    Nat → List Char → Except LiteralError Nat
  | before, [] => .ok before
  | before, c :: cs =>
    match digitValue? radix c with
    | none => .error (.malformed text)
    | some d =>
      if before * radix + d > limit then .error tooLarge
      else digits radix limit text tooLarge (before * radix + d) cs

/-- The radix of a literal and the text of its number. -/
def radix (cs : List Char) : Nat × List Char :=
  match cs with
  | '0' :: 'x' :: rest | '0' :: 'X' :: rest => (16, rest)
  | '0' :: c :: rest => (8, c :: rest)
  | _ => (10, cs)

/-- The value of an integer literal. A number may have a sign; a negative one is never out of range
but malformed when it is too low. -/
def decode (text : String) : Except LiteralError Int :=
  let (base, number) := radix text.toList
  let positive := digits base (maxMagnitude - 1) text (.outOfRange text) 0
  match number with
  | [] | ['+'] | ['-'] => .error (.malformed text)
  | '+' :: cs => (positive cs).map Int.ofNat
  | '-' :: cs => (digits base maxMagnitude text (.malformed text) 0 cs).map fun n => -Int.ofNat n
  | cs => (positive cs).map Int.ofNat

end Integer

end PlainC
