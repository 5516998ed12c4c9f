import PlainC.Checked
import PlainC.Literal.Integer
import PlainC.Size

set_option autoImplicit false

/-!
The value of an array size: operands from left to right, then the operator, in whole numbers that
fit a signed 64-bit word. A quotient is cut off toward zero and a remainder has the sign of the
dividend.
-/

namespace PlainC

namespace Size

/-- The result of an operator, unless it divides by zero or leaves the range. The remainder of the
least number by -1 counts as leaving it. Only arithmetic operators can stand in a size. -/
def apply (op : Operator) (left right : Int) : Except Violation Int :=
  let checked (value : Int) : Except Violation Int :=
    if Integer.inRange value then .ok value else .error .sizeOverflow
  match op with
  | .plus => checked (left + right)
  | .minus => checked (left - right)
  | .star => checked (left * right)
  | .slash => if right = 0 then .error .sizeDividedByZero else checked (left.tdiv right)
  | .percent =>
    if right = 0 then .error .sizeDividedByZero
    else if Integer.inRange (left.tdiv right) then .ok (left.tmod right)
    else .error .sizeOverflow
  | _ => .error .sizeNotConstant

/-- The number with a sign in front of it, which only a minus changes. -/
def negateIf (sign : Operator) (value : Int) : Except Violation Int :=
  if sign = .minus then apply .minus 0 value else .ok value

/-- An arithmetic result at the place of its operator. -/
def atOperator (place : Place) : Except Violation Int → Checked Int
  | .ok value => pure value
  | .error violation => Checked.violate violation place

def value : Size → Checked Int
  | literal text => Checked.ofLiteral text.place (Integer.decode text.value)
  | signed sign operand => do
    let value ← operand.value
    atOperator sign.place (negateIf sign.value value)
  | binary op left right => do
    let l ← left.value
    let r ← right.value
    atOperator op.place (apply op.value l r)
  | paren _ inner closing => do
    let value ← inner.value
    Checked.requireMark .rightParen closing
    return value
  | missing instead => Checked.violate (.sizeOperandNotConstant instead.value) instead.place

end Size

end PlainC
