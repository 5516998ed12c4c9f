import PlainC.Program
import PlainC.Proofs.Cursor.Evaluator
import PlainC.Proofs.OnePass.Productions

set_option autoImplicit false

/-!
The parser with a cursor: the productions of the grammar, each of which asks for the token at the
cursor to decide what it is, and the analysis of tokens that is made of them.
-/

namespace PlainC

namespace Cursor

namespace Parser

open Walk

/-- Goes over a mark that must come next. -/
def expect (mark : Delimiter) : Parser Unit := do
  match ← match? (.delimiter mark) with
  | some _ => return ()
  | none => unexpected (.mark mark)

/-- Goes over a name that must come next. -/
def expectName (wanted : Wanted) : Parser Name := do
  match ← accept? Parse.nameOf with
  | some name => return name
  | none => unexpected wanted

/-- Things with commas between them. -/
def commas (item : Parser Unit) : Parser Unit := do
  item
  bounded fun fuel => repeating (match? (.delimiter .comma)) (fun _ _ => item) fuel ()

/-- The beginning of a turn, unless the loop has come to its end. -/
def unlessEnded (ended : Parser Bool) : Parser (Option Unit) := do
  if ← ended then return none
  return some ()

/-! ### Types -/

def typeBase : Parser (Option Base) := do
  if let some _ ← match? (.keyword .intKw) then
    return some .int
  if let some _ ← match? (.keyword .doubleKw) then
    return some .double
  if let some _ ← match? (.keyword .charKw) then
    return some .char
  match ← match? (.keyword .structKw) with
  | none => return none
  | some word =>
    let name ← expectName .structName
    return some (← check fun table => BaseName.resolve table (.struct word (.found name)))

/-- The extent of what is declared, which is a single value without an array part. -/
def extent : Parser Extent := do
  return (← arrayDecl).getD .scalar

def typeName : Parser (Option Ty) := do
  match ← typeBase with
  | none => return none
  | some base => return some ⟨base, ← extent⟩

/-! ### Expressions -/

section

variable (nested : Parser Operand)

/-- Expressions with commas between them, each of which is checked at its position; gives their
number. -/
def arguments (accept : SymbolTable → Nat → Place → Ty → Checked Unit) : Nat → Nat → Parser Nat
  | 0, _ => cutOff
  | fuel + 1, count => do
    let start ← current
    let value ← nested
    check fun table => accept table count start.place value.ty
    match ← match? (.delimiter .comma) with
    | some _ => arguments accept fuel (count + 1)
    | none => return count + 1

/-- A name, and the arguments behind it if it is called. -/
def nameOrCall (name : Name) : Parser Operand := do
  match ← match? (.delimiter .leftParen) with
  | none => check fun table => Expr.typeOfReference table name
  | some _ =>
    let symbol ← check fun table => Expr.requireFunction table name
    match ← match? (.delimiter .rightParen) with
    | some _ => check fun _ => Expr.typeOfCall name symbol 0
    | none =>
      let given ← bounded fun fuel => arguments nested
        (fun table => Expr.requireArgument table name symbol.args) fuel 0
      expect .rightParen
      check fun _ => Expr.typeOfCall name symbol given

def primary : Parser Operand := do
  match ← accept? Parse.nameOf with
  | some name => nameOrCall nested name
  | none =>
    match ← accept? Expr.literalOf with
    | some ⟨(form, text), place⟩ => check fun _ => Expr.typeOfLiteral form ⟨text, place⟩
    | none =>
      match ← match? (.delimiter .leftParen) with
      | some _ =>
        let value ← nested
        expect .rightParen
        return value
      | none => unexpected .expression

/-- A bracket, or a dot. -/
def suffix? : Parser (Option (Place ⊕ Place)) := do
  match ← match? (.delimiter .leftBracket) with
  | some opening => return some (.inl opening)
  | none => return (← match? (.operator .dot)).map .inr

/-- What follows a bracket or a dot behind a value. -/
def suffix (base : Operand) : Place ⊕ Place → Parser Operand
  | .inl opening => do
    check fun table => Expr.requireArray table opening base.ty
    let start ← current
    let index ← nested
    check fun table => Expr.requireIndex table start.place index.ty
    expect .rightBracket
    return .stored base.ty.element
  | .inr dot => do
    let name ← expectName .memberName
    check fun table => Expr.typeOfMember table dot base name

def suffixed (fuel : Nat) : Parser Operand := do
  repeating suffix? (suffix nested) fuel (← primary nested)

def unary : Nat → Parser Operand
  | 0 => cutOff
  | fuel + 1 => do
    match ← accept? (Parse.operatorAmong [.minus, .bang]) with
    | some op =>
      let value ← unary fuel
      check fun table => Expr.typeOfUnary table op value.ty
    | none => suffixed nested (fuel + 1)

/-- A parenthesis that no type follows belongs to a value: the cursor goes back to it. -/
def cast : Nat → Parser Operand
  | 0 => cutOff
  | fuel + 1 => do
    let checkpoint ← get
    match ← match? (.delimiter .leftParen) with
    | none => unary nested (fuel + 1)
    | some _ =>
      match ← typeName with
      | none =>
        restore checkpoint.position
        unary nested (fuel + 1)
      | some target =>
        expect .rightParen
        let start ← current
        let value ← cast fuel
        check fun table => Expr.typeOfCast table start.place target value.ty

/-- What follows the left operand of an operator. -/
def applied (operand : Parser Operand) (left : Operand) (op : At Operator) : Parser Operand := do
  let right ← operand
  check fun table => Expr.typeOfBinary table op left.ty right.ty

/-- Operands with operators between them. -/
def operators (ops : List Operator) (fuel : Nat) (operand : Parser Operand) : Parser Operand := do
  repeating (accept? (Parse.operatorAmong ops)) (applied operand) fuel (← operand)

def levels (fuel : Nat) (operand : Parser Operand) : List (List Operator) → Parser Operand
  | [] => operand
  | ops :: tighter => operators ops fuel (levels fuel operand tighter)

def assign : Nat → Parser Operand
  | 0 => cutOff
  | fuel + 1 => do
    let start ← current
    let target ← levels (fuel + 1) (cast nested (fuel + 1)) Expr.levels
    match ← match? (.operator .assign) with
    | none => return target
    | some op =>
      let value ← assign fuel
      check fun table => Expr.typeOfAssign table start.place op target value.ty

end

def expressionWithin : Nat → Parser Operand
  | 0 => cutOff
  | fuel + 1 => assign (expressionWithin fuel) (fuel + 1)

def expression : Parser Operand := bounded expressionWithin

/-! ### Variables -/

def initializer (ty : Ty) : Parser Ty := do
  match ← match? (.delimiter .leftBrace) with
  | none =>
    let start ← current
    let source ← expression
    check fun table => OnePass.acceptValue ty table start.place source.ty
  | some opening =>
    check fun table => Initializer.requireArray table opening ty
    match ← match? (.delimiter .rightBrace) with
    | some _ => check fun _ => Initializer.fit opening ty 0
    | none =>
      let given ← bounded fun fuel =>
        arguments expression (OnePass.acceptElement ty.element) fuel 0
      expect .rightBrace
      check fun _ => Initializer.fit opening ty given

/-- The type of a variable with a name, for which there may be an initializer. -/
def initialized (region : Region) (name : Name) (ty : Ty) : Parser Ty := do
  match ← match? (.operator .assign) with
  | none => return ty
  | some op =>
    match region with
    | .members _ _ => check fun _ => Checked.violate (.memberInitialized name.value) op
    | .topLevel | .body _ => initializer ty

def declarator (base : Base) : Parser Unit := do
  let name ← expectName .variableName
  let declared : Ty := ⟨base, ← extent⟩
  let region := (← get).memory.region
  let ty ← initialized region name declared
  store fun table => region.declare table name ty

def varDeclaration : Parser Bool := do
  match ← typeBase with
  | none => return false
  | some base =>
    commas (declarator base)
    expect .semicolon
    return true

/-! ### Statements -/

/-- An expression whose value is left. -/
def unused : Parser Unit := do
  let _ ← expression

/-- An expression whose value is tested. -/
def tested : Parser Unit := do
  let start ← current
  let value ← expression
  check fun _ => do
    if value.ty.isStruct then Checked.violate .structTested start.place
    if value.ty.isVoid then Checked.violate .voidTested start.place

def condition : Parser Unit := do
  expect .leftParen
  tested
  expect .rightParen

/-- Something that can be left out in front of a mark. -/
def unlessSeen (mark : Delimiter) (parser : Parser Unit) : Parser Unit := do
  if ← sees (.delimiter mark) then return ()
  parser

def forHeader : Parser Unit := do
  expect .leftParen
  unlessSeen .semicolon unused
  expect .semicolon
  unlessSeen .semicolon tested
  expect .semicolon
  unlessSeen .rightParen unused
  expect .rightParen

/-- What follows the word `return`. -/
def returnValue (scope : FunctionScope) (word : Place) : Parser Unit := do
  if ← sees (.delimiter .semicolon) then
    check fun table => scope.checkReturn table word none
  else
    let value ← expression
    check fun table => OnePass.acceptResult scope table word value.ty
  expect .semicolon

/-- What follows the word `break`. -/
def breakLoop (word : Place) : Parser Unit := do
  let loops := (← get).memory.loops
  check fun _ => do if loops = 0 then Checked.violate .breakOutsideLoop word
  expect .semicolon

/-- An expression statement. -/
def expressionStatement : Parser Unit := do
  if Expr.canBegin (← current).value then
    unused
    expect .semicolon
  else
    unexpected .statement

section

variable (nested : Parser Unit)

/-- A declaration or a statement, with which a turn has begun in a block that has not ended. -/
def item : Parser Unit := do
  if ← atEnd then
    unexpected (.mark .rightBrace)
  else if ← varDeclaration then
    return ()
  else
    nested

/-- The items of a block up to the brace that ends it. -/
def items : Parser Unit := bounded fun fuel =>
  repeating (unlessEnded (sees (.delimiter .rightBrace))) (fun _ _ => item nested) fuel ()

def compound : Parser Bool := do
  match ← match? (.delimiter .leftBrace) with
  | none => return false
  | some _ =>
    items nested
    expect .rightBrace
    return true

/-- What follows the word `if`. -/
def ifStatement : Parser Unit := do
  condition
  nested
  match ← match? (.keyword .elseKw) with
  | none => return ()
  | some _ => nested

/-- A statement inside of one loop more. -/
def loopBody : Parser Unit := do
  update fun memory => { memory with loops := memory.loops + 1 }
  nested
  update fun memory => { memory with loops := memory.loops - 1 }

end

/-- What follows the word `while`. -/
def whileStatement (nested : Parser Unit) : Parser Unit := do
  condition
  loopBody nested

/-- What follows the word `for`. -/
def forStatement (nested : Parser Unit) : Parser Unit := do
  forHeader
  loopBody nested

def statementWithin (scope : FunctionScope) : Nat → Parser Unit
  | 0 => cutOff
  | fuel + 1 => do
    let nested := statementWithin scope fuel
    if ← compound nested then return ()
    if let some _ ← match? (.keyword .ifKw) then
      return ← ifStatement nested
    if let some _ ← match? (.keyword .whileKw) then
      return ← whileStatement nested
    if let some _ ← match? (.keyword .forKw) then
      return ← forStatement nested
    if let some word ← match? (.keyword .breakKw) then
      return ← breakLoop word
    if let some word ← match? (.keyword .returnKw) then
      return ← returnValue scope word
    if let some _ ← match? (.delimiter .semicolon) then
      return ()
    expressionStatement

def statement (scope : FunctionScope) : Parser Unit := bounded (statementWithin scope)

def compoundStatement (scope : FunctionScope) : Parser Bool := compound (statement scope)

/-! ### Declarations -/

/-- A declaration of members, which is all of a turn. -/
def member? : Parser (Option Unit) := do
  if ← varDeclaration then return some ()
  return none

def members : Parser Unit := bounded fun fuel =>
  repeating member? (fun _ _ => pure ()) fuel ()

/-- What follows the name of a struct and its brace. -/
def structBody (name : Name) : Parser Unit := do
  let outer := (← get).memory
  let index := outer.table.size
  store fun table => do
    if let some previous := table.find? name.value then
      Checked.redefined name previous.line
    table.declare name (topLevelSymbol name .struct (.struct index))
  update fun memory => { memory with region := .members index name.value }
  members
  update fun memory => { memory with region := outer.region }
  expect .rightBrace
  expect .semicolon

/-- Behind the name of a struct stands no brace where the struct is used as a type: the cursor goes
back to the word in front of it. -/
def structDeclaration : Parser Bool := do
  let checkpoint ← get
  match ← match? (.keyword .structKw) with
  | none => return false
  | some _ =>
    let name ← expectName .structName
    match ← match? (.delimiter .leftBrace) with
    | none =>
      restore checkpoint.position
      return false
    | some _ =>
      structBody name
      return true

/-- What a function gives: a star stands for an array. -/
def resultType : Parser (Option Ty) := do
  match ← match? (.keyword .voidKw) with
  | some _ => return some .void
  | none =>
    match ← typeBase with
    | none => return none
    | some base =>
      match ← match? (.operator .star) with
      | none => return some ⟨base, .scalar⟩
      | some _ => return some ⟨base, .unsized⟩

/-- A parameter of the function with an index and a depth. -/
def param (index depth : Nat) : Parser Unit := do
  match ← typeBase with
  | none => unexpected .parameterType
  | some base =>
    let name ← expectName .parameterName
    let ty : Ty := ⟨base, (← extent).ofParameter⟩
    let symbol : Symbol :=
      { name := name.value, cls := .var, ty, storage := .argument, depth, line := name.place.line }
    store fun table => table.declare name symbol
    update fun memory => { memory with table := memory.table.addArg index symbol }

/-- What follows the parameters of a function, in front of which the memory was another. At the end
its parameters and variables are taken back. -/
def behindParams (outer : Memory) (ty : Ty) (name : Name) : Parser Unit := do
  expect .rightParen
  let depth := outer.functions + 1
  if ← compoundStatement ⟨name.value, ty, depth⟩ then
    update fun memory =>
      { memory with region := outer.region, table := memory.table.truncate (outer.table.size + 1) }
  else
    unexpected (.mark .leftBrace)

/-- What follows the name of a function and its parenthesis. -/
def functionBody (ty : Ty) (name : Name) : Parser Unit := do
  let outer := (← get).memory
  let depth := outer.functions + 1
  store fun table => table.declare name (topLevelSymbol name .function ty)
  update fun memory => { memory with region := .body depth, functions := depth }
  unlessSeen .rightParen (commas (param outer.table.size depth))
  behindParams outer ty name

/-- Without a name behind the type, or a parenthesis behind the name, it is no function: the cursor
goes back to the beginning. -/
def functionDeclaration : Parser Bool := do
  let checkpoint ← get
  match ← resultType with
  | none => return false
  | some ty =>
    match ← accept? Parse.nameOf with
    | none =>
      restore checkpoint.position
      return false
    | some name =>
      match ← match? (.delimiter .leftParen) with
      | none =>
        restore checkpoint.position
        return false
      | some _ =>
        functionBody ty name
        return true

/-- What is no struct, tried as a function and as variables. -/
def functionOrVariables : Parser Unit := do
  if ← functionDeclaration then return ()
  else if ← varDeclaration then return ()
  else unexpected .declaration

def declaration : Parser Unit := do
  if ← structDeclaration then return ()
  else functionOrVariables

/-- All declarations up to an end of input. -/
def declarations : Parser Unit := bounded fun fuel =>
  repeating (unlessEnded atEnd) (fun _ _ => declaration) fuel ()

/-- The declarations of a program; its position is that of the cursor. -/
def program : Parser Program := do
  declarations
  let reached ← get
  return ⟨reached.memory.table, reached.position⟩

end Parser

/-- The state in front of all tokens. -/
def State.outset : State := ⟨0, .initial, .topLevel, 0, 0⟩

/-- The analysis of tokens, which must end with the end of input. -/
def ofTokens (tokens : List Token) : Run State Program :=
  let tape := Lexeme.number 0 tokens
  let parser : Parser Program :=
    match tape.getLast? with
    | none => Walk.settle (Checked.refuse .noTokens ⟨0, ⟨0, 0⟩, 1⟩)
    | some final =>
      if final.value ≠ .endOfInput then Walk.settle (Checked.unexpected .endOfInput final)
      else Parser.program
  parser tape .outset

end Cursor

end PlainC
