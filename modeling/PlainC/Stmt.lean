import PlainC.VarDecl

set_option autoImplicit false

/-!
Statements as they are written. `missing` stands where a statement should.
-/

namespace PlainC

/-- An expression in the parentheses behind `if` or `while`. -/
structure Condition where
  opening : Slot Place
  expr : Expr
  closing : Slot Place
  deriving Repr

/-- What stands in the parentheses behind `for`. -/
structure ForHeader where
  opening : Slot Place
  first : Option Expr
  firstSemicolon : Slot Place
  condition : Option Expr
  secondSemicolon : Slot Place
  step : Option Expr
  closing : Slot Place
  deriving Repr

mutual

inductive Stmt where
  | block (opening : Place) (items : Items) (closing : Slot Place)
  | ifThen (word : Place) (condition : Condition) (body : Stmt)
  | ifElse (word : Place) (condition : Condition) (body : Stmt) (elseWord : Place)
      (otherwise : Stmt)
  | whileLoop (word : Place) (condition : Condition) (body : Stmt)
  | forLoop (word : Place) (header : ForHeader) (body : Stmt)
  | breakLoop (word : Place) (semicolon : Slot Place)
  | returnValue (word : Place) (value : Option Expr) (semicolon : Slot Place)
  | empty (semicolon : Place)
  | expr (expr : Expr) (semicolon : Slot Place)
  | missing (instead : Lexeme)
  deriving Repr

/-- The declarations and statements of a block, in order. -/
inductive Items where
  | nil
  | decl (decl : VarDecl) (rest : Items)
  | stmt (stmt : Stmt) (rest : Items)
  deriving Repr

end

/-- A block by itself, such as the body of a function. -/
structure Block where
  opening : Place
  items : Items
  closing : Slot Place
  deriving Repr

end PlainC
