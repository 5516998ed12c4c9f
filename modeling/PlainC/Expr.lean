import PlainC.TypeName

set_option autoImplicit false

/-!
Expressions as they are written. `missing` stands where an expression should.
-/

namespace PlainC

mutual

inductive Expr where
  | literal (form : LiteralForm) (text : Name)
  | reference (name : Name)
  | call (callee : Name) (opening : Place) (args : Args) (closing : Slot Place)
  | callEmpty (callee : Name) (opening closing : Place)
  | paren (opening : Place) (inner : Expr) (closing : Slot Place)
  | element (array : Expr) (opening : Place) (index : Expr) (closing : Slot Place)
  | member (record : Expr) (dot : Place) (name : Slot Name)
  | unary (op : At Operator) (operand : Expr)
  | cast (opening : Place) (target : TypeName) (closing : Slot Place) (operand : Expr)
  | binary (op : At Operator) (left right : Expr)
  | assign (target : Expr) (op : Place) (value : Expr)
  | missing (instead : Lexeme)
  deriving Repr

/-- Expressions with commas between them, at least one. -/
inductive Args where
  | last (arg : Expr)
  | more (arg : Expr) (comma : Place) (rest : Args)
  deriving Repr

end

/-- The place of the first lexeme. -/
def Expr.start : Expr → Place
  | literal _ text => text.place
  | reference name => name.place
  | call callee _ _ _ => callee.place
  | callEmpty callee _ _ => callee.place
  | paren opening _ _ => opening
  | element array _ _ _ => array.start
  | member record _ _ => record.start
  | unary op _ => op.place
  | cast opening _ _ _ => opening
  | binary _ left _ => left.start
  | assign target _ _ => target.start
  | missing instead => instead.place

/-- The number of expressions. -/
def Args.length : Args → Nat
  | last _ => 1
  | more _ _ rest => rest.length + 1

end PlainC
