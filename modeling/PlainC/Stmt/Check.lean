import PlainC.Stmt
import PlainC.VarDecl.Declare

set_option autoImplicit false

/-!
The rules of statements. A block has no names of its own: what is declared in it stays in the table
until the end of the function.
-/

namespace PlainC

/-- The function in which statements stand. -/
structure FunctionScope where
  name : String
  result : Ty
  depth : Nat
  deriving DecidableEq, Repr

/-- Checks an expression whose value is tested. -/
def Expr.checkTested (table : SymbolTable) (expr : Expr) : Checked Unit := do
  let value ← expr.type table
  if value.ty.isStruct then Checked.violate .structTested expr.start
  if value.ty.isVoid then Checked.violate .voidTested expr.start

/-- Checks an expression whose value is left. -/
def Expr.checkUnused (table : SymbolTable) (expr : Expr) : Checked Unit := do
  let _ ← expr.type table

def Condition.check (table : SymbolTable) (condition : Condition) : Checked Unit := do
  Checked.requireMark .leftParen condition.opening
  condition.expr.checkTested table
  Checked.requireMark .rightParen condition.closing

def ForHeader.check (table : SymbolTable) (header : ForHeader) : Checked Unit := do
  Checked.requireMark .leftParen header.opening
  header.first.forM (Expr.checkUnused table)
  Checked.requireMark .semicolon header.firstSemicolon
  header.condition.forM (Expr.checkTested table)
  Checked.requireMark .semicolon header.secondSemicolon
  header.step.forM (Expr.checkUnused table)
  Checked.requireMark .rightParen header.closing

namespace FunctionScope

/-- Checks what a function gives back against its result type. -/
def checkReturn (scope : FunctionScope) (table : SymbolTable) (word : Place) :
    Option Expr → Checked Unit
  | none =>
    if scope.result.isVoid then pure ()
    else Checked.violate (.returnWithoutValue scope.name (table.typeName scope.result)) word
  | some expr => do
    let value ← expr.type table
    if scope.result.isVoid then Checked.violate (.voidReturnsValue scope.name) word
    if !scope.result.accepts value.ty then
      Checked.violate (.returnMismatch (table.typeName value.ty) scope.name
        (table.typeName scope.result)) word

end FunctionScope

mutual

/-- Checks a statement inside of a number of loops, and gives the table with what it declares. -/
def Stmt.check (scope : FunctionScope) (loops : Nat) (table : SymbolTable) :
    Stmt → Checked SymbolTable
  | .block _ items closing => do
    let table ← items.check scope loops table
    Checked.requireMark .rightBrace closing
    return table
  | .ifThen _ condition body => do
    condition.check table
    body.check scope loops table
  | .ifElse _ condition body _ otherwise => do
    condition.check table
    let table ← body.check scope loops table
    otherwise.check scope loops table
  | .whileLoop _ condition body => do
    condition.check table
    body.check scope (loops + 1) table
  | .forLoop _ header body => do
    header.check table
    body.check scope (loops + 1) table
  | .breakLoop word semicolon => do
    if loops = 0 then Checked.violate .breakOutsideLoop word
    Checked.requireMark .semicolon semicolon
    return table
  | .returnValue word value semicolon => do
    scope.checkReturn table word value
    Checked.requireMark .semicolon semicolon
    return table
  | .empty _ => return table
  | .expr expr semicolon => do
    expr.checkUnused table
    Checked.requireMark .semicolon semicolon
    return table
  | .missing instead => Checked.unexpected .statement instead

/-- Checks the declarations and statements of a block in order. -/
def Items.check (scope : FunctionScope) (loops : Nat) (table : SymbolTable) :
    Items → Checked SymbolTable
  | .nil => return table
  | .decl decl rest => do
    let table ← decl.declare (.body scope.depth) table
    rest.check scope loops table
  | .stmt stmt rest => do
    let table ← stmt.check scope loops table
    rest.check scope loops table

end

def Block.check (scope : FunctionScope) (table : SymbolTable) (block : Block) :
    Checked SymbolTable := do
  let table ← block.items.check scope 0 table
  Checked.requireMark .rightBrace block.closing
  return table

end PlainC
