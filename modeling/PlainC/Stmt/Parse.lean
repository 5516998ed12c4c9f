import PlainC.Stmt
import PlainC.VarDecl.Parse

set_option autoImplicit false

/-!
Reading statements. An `else` belongs to the nearest `if` in front of it.
-/

namespace PlainC

def Condition.parse : Parse Condition := do
  let opening ← Parse.mark .leftParen
  let expr ← Expr.parse
  return ⟨opening, expr, ← Parse.mark .rightParen⟩

/-- An expression, unless the mark comes next that ends its place. -/
def Expr.parseUnless (mark : Delimiter) : Parse (Option Expr) := do
  if ← Parse.sees (.delimiter mark) then return none
  return some (← Expr.parse)

def ForHeader.parse : Parse ForHeader := do
  let opening ← Parse.mark .leftParen
  let first ← Expr.parseUnless .semicolon
  let firstSemicolon ← Parse.mark .semicolon
  let condition ← Expr.parseUnless .semicolon
  let secondSemicolon ← Parse.mark .semicolon
  let step ← Expr.parseUnless .rightParen
  return ⟨opening, first, firstSemicolon, condition, secondSemicolon, step,
    ← Parse.mark .rightParen⟩

/-- The items of a block up to its end, to the end of input, or to where a statement is missing;
`fuel` bounds their number. -/
def Items.parseWithin (nested : Parse Stmt) : Nat → Parse Items
  | 0 => pure .nil
  | fuel + 1 => do
    if ← Parse.sees (.delimiter .rightBrace) then return .nil
    if ← Parse.atEnd then return .nil
    match ← VarDecl.parse? with
    | some varDecl => return .decl varDecl (← parseWithin nested fuel)
    | none =>
      match ← nested with
      | .missing instead => return .stmt (.missing instead) .nil
      | statement => return .stmt statement (← parseWithin nested fuel)

/-- A block, if the next lexeme opens one. -/
def Block.parse? (nested : Parse Stmt) : Parse (Option Block) := do
  match ← Parse.mark? .leftBrace with
  | none => return none
  | some opening =>
    let items ← Parse.bounded (Items.parseWithin nested)
    return some ⟨opening, items, ← Parse.mark .rightBrace⟩

namespace Stmt

/-- What follows the word `if`. -/
def parseIf (nested : Parse Stmt) (word : Place) : Parse Stmt := do
  let condition ← Condition.parse
  let body ← nested
  match ← Parse.keyword? .elseKw with
  | none => return .ifThen word condition body
  | some elseWord => return .ifElse word condition body elseWord (← nested)

/-- What follows the word `for`. -/
def parseFor (nested : Parse Stmt) (word : Place) : Parse Stmt := do
  let header ← ForHeader.parse
  return .forLoop word header (← nested)

/-- What follows the word `while`. -/
def parseWhile (nested : Parse Stmt) (word : Place) : Parse Stmt := do
  let condition ← Condition.parse
  return .whileLoop word condition (← nested)

/-- What follows the word `return`. -/
def parseReturn (word : Place) : Parse Stmt := do
  let value ← Expr.parseUnless .semicolon
  return .returnValue word value (← Parse.mark .semicolon)

/-- An expression statement, or nothing where no expression can begin. -/
def parseExpr : Parse Stmt := do
  let next ← Parse.peek
  if Expr.canBegin next.value then
    let value ← Expr.parse
    return .expr value (← Parse.mark .semicolon)
  else
    return .missing next

def parseWithin : Nat → Parse Stmt
  | 0 => return .missing (← Parse.peek)
  | fuel + 1 => do
    let nested := parseWithin fuel
    if let some ⟨opening, items, closing⟩ ← Block.parse? nested then
      return .block opening items closing
    if let some word ← Parse.keyword? .ifKw then
      return ← parseIf nested word
    if let some word ← Parse.keyword? .whileKw then
      return ← parseWhile nested word
    if let some word ← Parse.keyword? .forKw then
      return ← parseFor nested word
    if let some word ← Parse.keyword? .breakKw then
      return .breakLoop word (← Parse.mark .semicolon)
    if let some word ← Parse.keyword? .returnKw then
      return ← parseReturn word
    if let some semicolon ← Parse.mark? .semicolon then
      return .empty semicolon
    parseExpr

def parse : Parse Stmt := Parse.bounded parseWithin

end Stmt

def Block.parse : Parse (Option Block) := Block.parse? Stmt.parse

end PlainC
