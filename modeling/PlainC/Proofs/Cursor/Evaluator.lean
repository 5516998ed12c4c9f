import PlainC.Proofs.Cursor.Basic
import PlainC.Size.Parse
import PlainC.Size.Value
import PlainC.TypeName.Resolve

set_option autoImplicit false

/-!
The evaluator of array sizes. It gets all tokens from the cursor on, has an index of its own in them
and computes the value on its way. It tells the parser how many tokens it went over.
-/

namespace PlainC

namespace Cursor

/-- A part of the evaluator, whose state is its index. -/
abbrev Evaluator (α : Type) := Walk Nat α

namespace Evaluator

open Walk

/-- The token at the index; behind the last token this fails. -/
def current : Evaluator Lexeme := fun tape index =>
  match tape[index]? with
  | some token => ⟨[.asked index], .ok (token, index)⟩
  | none =>
    ⟨[.asked index, .fellBack],
      .error (.fault ⟨.unexpected (.mark .rightBracket) .endOfInput, ⟨index, ⟨0, 0⟩, 0⟩⟩)⟩

/-- The kind of the token at the index, if there is one. -/
def peek : Evaluator (Option Kind) := fun tape index =>
  ⟨[.asked index], .ok (tape[index]?.map At.value, index)⟩

/-- Goes over a token, whatever its kind is. -/
def skip : Evaluator Unit := fun _ index => ⟨[.moved (index + 1)], .ok ((), index + 1)⟩

/-- The operator at the index, if it is one of those given. -/
def operator? (ops : List Operator) : Evaluator (Option (At Operator)) := do
  match (← peek).bind (Parse.operatorAmong ops) with
  | none => return none
  | some op =>
    let token ← current
    skip
    return some ⟨op, token.place⟩

section

variable (nested : Evaluator Int)

/-- What follows an opening parenthesis. -/
def closed : Evaluator Int := do
  let value ← nested
  let closing ← current
  if closing.value = .delimiter .rightParen then
    skip
    return value
  else
    settle (Checked.unexpected (.mark .rightParen) closing)

/-- A number, or a size in parentheses. -/
def primary : Evaluator Int := do
  let token ← current
  match Size.integerText token.value with
  | some text =>
    skip
    settle (Checked.ofLiteral token.place (Integer.decode text))
  | none =>
    if token.value = .delimiter .leftParen then
      skip
      closed nested
    else
      settle (Checked.violate (.sizeOperandNotConstant token.value) token.place)

def unary : Nat → Evaluator Int
  | 0 => cutOff
  | fuel + 1 => do
    match ← operator? [.minus, .plus] with
    | none => primary nested
    | some sign =>
      let value ← unary fuel
      settle (Size.atOperator sign.place (Size.negateIf sign.value value))

end

/-- An operator behind its left operand is applied as soon as the right one is there. -/
def applied (operand : Evaluator Int) (left : Int) (op : At Operator) : Evaluator Int := do
  let right ← operand
  settle (Size.atOperator op.place (Size.apply op.value left right))

/-- Operands with operators between them. -/
def chain (ops : List Operator) (fuel : Nat) (operand : Evaluator Int) : Evaluator Int := do
  repeating (operator? ops) (applied operand) fuel (← operand)

def sizeWithin : Nat → Evaluator Int
  | 0 => cutOff
  | fuel + 1 =>
    let factor := unary (sizeWithin fuel) (fuel + 1)
    let term := chain [.star, .slash, .percent] (fuel + 1) factor
    chain [.plus, .minus] (fuel + 1) term

def size : Evaluator Int := bounded sizeWithin

end Evaluator

/-- The event of a walk that begins further on, on the whole tape. -/
def Event.behind (start : Nat) : Event → Event
  | asked index => asked (start + index)
  | moved index => moved (start + index)
  | fellBack => fellBack

namespace Parser

open Walk

/-- The value of the size at the cursor, and the number of tokens that it is made of. -/
def evaluate : Parser (Int × Nat) := fun tape s =>
  let run := Evaluator.size (tape.drop s.position) 0
  ⟨run.events.map (Event.behind s.position),
    run.result.map fun (value, consumed) => ((value, consumed), s)⟩

/-- An extent of a size, which was evaluated from a place on. -/
def extentOf (start : Place) (size : Int) : Checked Extent :=
  if size ≤ 0 then Checked.violate (.sizeNotPositive size) start
  else if size > maxExtent then Checked.violate (.sizeTooLarge size) start
  else return .sized size.toNat

/-- The bracket that must follow a size, which is looked at in front of it. -/
def closedBehind (start : Place) (size : Int) : Parser Extent := do
  let next ← current
  settle (ArrayPart.requireClosing
    (if next.value = .delimiter .rightBracket then .found next.place else .missing next))
  let extent ← settle (extentOf start size)
  let _ ← advance
  return extent

/-- A size and the bracket behind it. The cursor is set by the number of tokens that were
evaluated. -/
def sized : Parser Extent := do
  let start ← current
  let (size, consumed) ← evaluate
  moveTo ((← get).position + consumed)
  closedBehind start.place size

def arrayDecl : Parser (Option Extent) := do
  match ← match? (.delimiter .leftBracket) with
  | none => return none
  | some _ =>
    match ← match? (.delimiter .rightBracket) with
    | some _ => return some .unsized
    | none => return some (← sized)

end Parser

end Cursor

end PlainC
