import PlainC.Parse
import PlainC.Size

set_option autoImplicit false

/-!
Reading the size of an array. A sign binds more tightly than the operators of multiplication, and
those more tightly than the operators of addition.
-/

namespace PlainC

namespace Size

def gap : Parse Size := do
  return .missing (← Parse.peek)

def integerText : Kind → Option String
  | .literal .integer text => some text
  | _ => none

/-- A number, or a size in parentheses. -/
def parsePrimary (nested : Parse Size) : Parse Size := do
  match ← Parse.accept? integerText with
  | some text => return .literal text
  | none =>
    match ← Parse.mark? .leftParen with
    | some opening =>
      let inner ← nested
      return .paren opening inner (← Parse.mark .rightParen)
    | none => gap

/-- Any number of signs and what they stand in front of. -/
def parseSigned (nested : Parse Size) : Nat → Parse Size
  | 0 => gap
  | fuel + 1 => do
    match ← Parse.operator? [.minus, .plus] with
    | some sign => return .signed sign (← parseSigned nested fuel)
    | none => parsePrimary nested

def parseWithin : Nat → Parse Size
  | 0 => gap
  | fuel + 1 =>
    let factor := parseSigned (parseWithin fuel) (fuel + 1)
    let term := Parse.leftAssociative .binary [.star, .slash, .percent] fuel factor
    Parse.leftAssociative .binary [.plus, .minus] fuel term

def parse : Parse Size := Parse.bounded parseWithin

end Size

end PlainC
