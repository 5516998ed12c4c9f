import PlainC.Literal.Basic
import PlainC.Number.Binary64

set_option autoImplicit false

/-!
Real literals: decimal numbers with an optional sign, fraction and exponent, and the names of
infinity and of no number. The value is the nearest double-precision number.
-/

namespace PlainC

namespace Real

/-- An absolute value in decimal: digits, the last of which weighs ten to the power of the
exponent. -/
structure Decimal where
  digits : List Char
  exponent : Int

def isDigit (c : Char) : Bool := (digitValue? 10 c).isSome

/-- The number that decimal digits spell. -/
def natOfDigits (cs : List Char) : Nat :=
  cs.foldl (fun n c => 10 * n + (c.toNat - '0'.toNat)) 0

/-- The number of an exponent, which may have a sign and has at least one digit. -/
def exponent? (cs : List Char) : Option Int :=
  let digits? (cs : List Char) : Option Int :=
    if cs ≠ [] ∧ cs.all isDigit then some (natOfDigits cs) else none
  match cs with
  | '-' :: rest => (digits? rest).map fun n => -n
  | '+' :: rest => digits? rest
  | _ => digits? cs

/-- A decimal number without a sign, of at least one digit before or behind its point. -/
def decimal? (cs : List Char) : Option Decimal :=
  let whole := cs.takeWhile isDigit
  let behind := cs.dropWhile isDigit
  let (fraction, rest) := match behind with
    | '.' :: more => (more.takeWhile isDigit, more.dropWhile isDigit)
    | _ => ([], behind)
  let digits := whole ++ fraction
  if digits = [] then none
  else match rest with
    | [] => some ⟨digits, -fraction.length⟩
    | c :: more =>
      if c = 'e' ∨ c = 'E' then (exponent? more).map fun e => ⟨digits, e - fraction.length⟩
      else none

/-- The bits of the double-precision number nearest to a decimal one. A number of 310 or more
digits is above all of them, and one with 330 zeros behind its point is below half the least. -/
def Decimal.magnitude (decimal : Decimal) : Nat :=
  let digits := decimal.digits.dropWhile (· = '0')
  let size := digits.length + decimal.exponent
  if digits = [] then 0
  else if size > 310 then Binary64.infinityBits
  else if size < -330 then 0
  else match decimal.exponent with
    | .ofNat e => Binary64.magnitudeOfRatio (natOfDigits digits * Nat.pow 10 e) 1
    | .negSucc e => Binary64.magnitudeOfRatio (natOfDigits digits) (Nat.pow 10 (e + 1))

/-- The bits of an absolute value, which is a decimal number or a name in letters of any case. -/
def magnitude? (cs : List Char) : Option Nat :=
  match decimal? cs with
  | some decimal => some decimal.magnitude
  | none =>
    let name := String.ofList (cs.map Char.toLower)
    if name = "inf" ∨ name = "infinity" then some Binary64.infinityBits
    else if name = "nan" then some Binary64.nanBits
    else none

/-- The value of a real literal. -/
def decode (text : String) : Except LiteralError Binary64 :=
  let (negative, cs) := match text.toList with
    | '-' :: rest => (true, rest)
    | '+' :: rest => (false, rest)
    | cs => (false, cs)
  match magnitude? cs with
  | some magnitude => .ok (Binary64.withSign negative magnitude)
  | none => .error (.malformed text)

end Real

end PlainC
