set_option autoImplicit false

/-!
Double-precision numbers by their bits: a sign, eleven bits of exponent and fifty-two of fraction.
A ratio is rounded to the nearest of them, and a tie to the one with an even last bit.
-/

namespace PlainC

structure Binary64 where
  bits : UInt64
  deriving DecidableEq, Repr

namespace Binary64

/-- The bits of positive infinity; those of a finite number are fewer. -/
def infinityBits : Nat := 0x7ff <<< 52

def nanBits : Nat := infinityBits + (1 <<< 51)

/-- The number with a sign and the bits of its absolute value. -/
def withSign (negative : Bool) (magnitude : Nat) : Binary64 :=
  ⟨UInt64.ofNat (if negative then (1 <<< 63) + magnitude else magnitude)⟩

/-- The quotient of two numbers rounded to the nearest whole one, and to the even one of two. -/
def roundDiv (num den : Nat) : Nat :=
  let q := num / den
  let twice := 2 * (num % den)
  if twice > den ∨ (twice = den ∧ q % 2 = 1) then q + 1 else q

/-- The quotient times two to the power of a negated scale, rounded. -/
def roundScaled (num den : Nat) (scale : Int) : Nat :=
  match scale with
  | .ofNat s => roundDiv num (den <<< s)
  | .negSucc s => roundDiv (num <<< (s + 1)) den

/-- The greatest exponent of two that is not above a positive ratio. -/
def floorLog2 (num den : Nat) : Int :=
  let guess : Int := (num.log2 : Int) - den.log2
  let low : Bool := match guess with
    | .ofNat s => den <<< s ≤ num
    | .negSucc s => den ≤ num <<< (s + 1)
  if low then guess else guess - 1

/-- The bits of the number nearest to a positive ratio. Its last bit weighs two to the power
`scale`, which is never below -1074, so that numbers below the least normal one lose precision. -/
def magnitudeOfRatio (num den : Nat) : Nat :=
  let scale := max (floorLog2 num den - 52) (-1074)
  min infinityBits (((scale + 1074).toNat <<< 52) + roundScaled num den scale)

end Binary64

end PlainC
