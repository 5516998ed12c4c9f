import PlainC.Expr
import PlainC.Literal.Quoted
import PlainC.Literal.Real
import PlainC.TypeName.Resolve

set_option autoImplicit false

/-!
The types of expressions. Parts are checked from left to right, each as soon as all of it has been
read, and the first fault counts; so both sides of an operator come before the operator itself, and
an argument before the mark behind it.
-/

namespace PlainC

/-- What is known of the value of an expression: its type, and whether it can be assigned to. -/
structure Operand where
  ty : Ty
  assignable : Bool
  deriving DecidableEq, Repr

namespace Operand

/-- A value that was computed and cannot be assigned to. -/
def computed (ty : Ty) : Operand := ⟨ty, false⟩

/-- A value that has a place of its own. -/
def stored (ty : Ty) : Operand := ⟨ty, true⟩

end Operand

namespace Ty

/-- Whether a value can be tested to be zero. -/
def isTestable (ty : Ty) : Bool := !ty.isStruct && !ty.isVoid

/-- Whether a value can be compared. -/
def isComparable (ty : Ty) : Bool := ty.isTestable && !ty.isArray

end Ty

namespace Expr

section

variable (table : SymbolTable)

def invalidOperand (op : At Operator) (ty : Ty) : Checked Operand :=
  Checked.violate (.invalidOperand (table.typeName ty) op.value) op.place

/-- The type of a logical operator or comparison, whose sides both have to pass a test. -/
def typeOfTest (test : Ty → Bool) (op : At Operator) (left right : Ty) : Checked Operand :=
  if !test left then invalidOperand table op left
  else if !test right then invalidOperand table op right
  else pure (.computed .int)

/-- The type of an arithmetic operator: the wider one of its sides. -/
def typeOfArithmetic (op : At Operator) (left right : Ty) : Checked Operand :=
  match left.promote? right with
  | none => invalidOperand table op (if left.isArithmetic then right else left)
  | some ty =>
    if op.value = .percent ∧ ty.base = .double then Checked.violate .realRemainder op.place
    else pure (.computed ty)

def typeOfBinary (op : At Operator) (left right : Ty) : Checked Operand :=
  match op.value with
  | .conj | .disj => typeOfTest table Ty.isTestable op left right
  | .equal | .unequal | .less | .lessEqual | .greater | .greaterEqual =>
    typeOfTest table Ty.isComparable op left right
  | _ => typeOfArithmetic table op left right

/-- The type of a negation or of a number with a sign. -/
def typeOfUnary (op : At Operator) (ty : Ty) : Checked Operand :=
  if op.value = .bang then
    if ty.isTestable then pure (.computed .int) else invalidOperand table op ty
  else
    if ty.isArithmetic then pure (.computed ty) else invalidOperand table op ty

def typeOfAssign (start op : Place) (target : Operand) (value : Ty) : Checked Operand :=
  if !target.assignable then Checked.violate .notAssignable start
  else if target.ty.isArray then
    Checked.violate (.arrayAssigned (table.typeName target.ty)) op
  else if !target.ty.accepts value then
    Checked.violate (.assignMismatch (table.typeName value) (table.typeName target.ty)) op
  else pure (.computed target.ty)

/-- The type of a cast of a value that begins at a place. -/
def typeOfCast (start : Place) (target value : Ty) : Checked Operand :=
  if target.accepts value then pure (.computed target)
  else Checked.violate (.castMismatch (table.typeName value) (table.typeName target)) start

/-- An array in front of a bracket. -/
def requireArray (opening : Place) (ty : Ty) : Checked Unit :=
  if ty.isArray then pure ()
  else Checked.violate (.notIndexable (table.typeName ty)) opening

def requireIndex (start : Place) (ty : Ty) : Checked Unit :=
  if ty = .int then pure ()
  else Checked.violate (.indexNotInt (table.typeName ty)) start

/-- The member of a struct, which can be assigned to if the struct can. -/
def typeOfMember (dot : Place) (record : Operand) (member : Name) : Checked Operand :=
  match record.ty.isArray, record.ty.structIndex? with
  | false, some index =>
    match (table.structAt? index).bind fun struct => struct.member? member.value with
    | some symbol => pure ⟨symbol.ty, record.assignable⟩
    | none =>
      Checked.violate (.noSuchMember (table.typeName record.ty) member.value) member.place
  | _, _ => Checked.violate (.memberOfNonStruct (table.typeName record.ty)) dot

def lookUp (name : Name) : Checked Symbol :=
  match table.find? name.value with
  | some symbol => pure symbol
  | none => Checked.violate (.undefinedSymbol name.value) name.place

/-- A name as a value, which only a variable has. -/
def typeOfReference (name : Name) : Checked Operand := do
  let symbol ← lookUp table name
  match symbol.cls with
  | .var => return .stored symbol.ty
  | .function | .external => Checked.violate (.functionAsValue name.value) name.place
  | .struct => Checked.violate (.structAsValue name.value) name.place

/-- A name in front of arguments. -/
def requireFunction (name : Name) : Checked Symbol := do
  let symbol ← lookUp table name
  if symbol.isCallable then return symbol
  else Checked.violate (.notCallable name.value) name.place

/-- An argument at a position, counted from zero, for one of the given parameters. -/
def requireArgument (callee : Name) (params : List Symbol) (position : Nat) (start : Place)
    (ty : Ty) : Checked Unit :=
  match params[position]? with
  | none => Checked.violate (.tooManyArguments callee.value params.length) start
  | some param =>
    if param.ty.accepts ty then pure ()
    else
      Checked.violate (.argumentMismatch callee.value (position + 1) (table.typeName ty)
        (table.typeName param.ty)) start

/-- The value of a call with a number of arguments. -/
def typeOfCall (callee : Name) (symbol : Symbol) (given : Nat) : Checked Operand :=
  if given < symbol.args.length then
    Checked.violate (.tooFewArguments callee.value symbol.args.length given) callee.place
  else pure (.computed symbol.ty)

end

/-- The type of a text with a number of bytes: an array of so many characters. That of an empty
text has no size. -/
def typeOfText (place : Place) (bytes : Nat) : Checked Operand :=
  if bytes > maxExtent then Checked.violate .stringTooLong place
  else pure (.computed ⟨.char, if bytes = 0 then .unsized else .sized bytes⟩)

def typeOfLiteral (form : LiteralForm) (text : Name) : Checked Operand :=
  match form with
  | .integer => do
    let _ ← Checked.ofLiteral text.place (Integer.decode text.value)
    return .computed .int
  | .real => do
    let _ ← Checked.ofLiteral text.place (Real.decode text.value)
    return .computed .double
  | .character => do
    let _ ← Checked.ofLiteral text.place (Quoted.decodeChar text.value)
    return .computed .char
  | .string => do
    let contents ← Checked.ofLiteral text.place (Quoted.decodeString text.value)
    typeOfText text.place contents.utf8ByteSize

/-- Whether the first thing in an expression without signs and casts is a parenthesis. -/
def opensWithParen : Expr → Bool
  | paren .. => true
  | element array .. => array.opensWithParen
  | member record .. => record.opensWithParen
  | _ => false

end Expr

open PlainC.Expr

mutual

/-- The type of an expression. A parenthesis is first tried as that of a cast, unless a sign or a
negation stands in front of it. -/
def Expr.type (table : SymbolTable) : Expr → Checked Operand
  | .literal form text => typeOfLiteral form text
  | .reference name => typeOfReference table name
  | .callEmpty callee _ _ => do
    let symbol ← requireFunction table callee
    typeOfCall callee symbol 0
  | .call callee _ args closing => do
    let symbol ← requireFunction table callee
    args.check table callee symbol.args 0
    Checked.requireMark .rightParen closing
    typeOfCall callee symbol args.length
  | .paren opening inner closing => do
    Checked.backtracked 1 opening
    let operand ← inner.type table
    Checked.requireMark .rightParen closing
    return operand
  | .element array opening index closing => do
    let base ← array.type table
    requireArray table opening base.ty
    let operand ← index.type table
    requireIndex table index.start operand.ty
    Checked.requireMark .rightBracket closing
    return .stored base.ty.element
  | .member record dot slot => do
    let operand ← record.type table
    let name ← Checked.require .memberName slot
    typeOfMember table dot operand name
  | .unary op operand => do
    let checked := operand.type table
    let value ← if operand.opensWithParen then checked.withoutFirst else checked
    typeOfUnary table op value.ty
  | .cast _ target closing operand => do
    let ty ← target.resolve table
    Checked.requireMark .rightParen closing
    let value ← operand.type table
    typeOfCast table operand.start ty value.ty
  | .binary op left right => do
    let l ← left.type table
    let r ← right.type table
    typeOfBinary table op l.ty r.ty
  | .assign target op value => do
    let t ← target.type table
    let v ← value.type table
    typeOfAssign table target.start op t v.ty
  | .missing instead => Checked.unexpected .expression instead

/-- Checks arguments from a position on against the parameters of a function. -/
def Args.check (table : SymbolTable) (callee : Name) (params : List Symbol)
    (position : Nat) : Args → Checked Unit
  | .last arg => do
    let value ← arg.type table
    requireArgument table callee params position arg.start value.ty
  | .more arg _ rest => do
    let value ← arg.type table
    requireArgument table callee params position arg.start value.ty
    rest.check table callee params (position + 1)

end

end PlainC
