import PlainC.Proofs.OnePass.Basic

set_option autoImplicit false

/-!
The productions of the grammar as parts of the one-pass analysis. A production that can decline
gives nothing, or `false`, where what it is for does not come next.
-/

namespace PlainC

namespace OnePass

open Analysis

/-- What must come next is not there. -/
def unexpected {α : Type} (wanted : Wanted) : Analysis α := do
  let next ← read Parse.peek
  check fun _ => Checked.unexpected wanted next

/-- Takes a mark that must come next. -/
def expect (mark : Delimiter) : Analysis Unit := do
  let slot ← read (Parse.mark mark)
  check fun _ => Checked.requireMark mark slot

/-- Takes a name that must come next. -/
def expectName (wanted : Wanted) : Analysis Name := do
  let slot ← read Parse.name
  check fun _ => Checked.require wanted slot

/-- The beginning of a turn, unless the loop has come to its end. -/
def unlessEnded (ended : Parse Bool) : Analysis (Option Unit) := do
  if ← read ended then return none
  return some ()

/-- Things with commas between them. -/
def commas (item : Analysis Unit) : Analysis Unit := do
  emit (.turned .commas 1)
  item
  bounded fun fuel =>
    repeating .commas (read (Parse.mark? .comma)) (fun _ _ => item) fuel 1 ()

/-! ### Types -/

def typeBase : Analysis (Option Base) := do
  match ← read BaseName.parse? with
  | none => return none
  | some base => return some (← check fun table => base.resolve table)

def arrayDecl : Analysis (Option Extent) := do
  match ← read ArrayPart.parse with
  | .absent => return none
  | array => return some (← check fun _ => array.extent)

/-- The extent of what is declared, which is a single value without an array part. -/
def extent : Analysis Extent := do
  return (← arrayDecl).getD .scalar

def typeName : Analysis (Option Ty) := do
  match ← typeBase with
  | none => return none
  | some base => return some ⟨base, ← extent⟩

/-! ### Expressions -/

section

variable (nested : Analysis Operand)

/-- Expressions with commas between them, each of which is checked at its position; gives their
number. -/
def arguments (accept : SymbolTable → Nat → Place → Ty → Checked Unit) : Nat → Nat → Analysis Nat
  | 0, _ => do
    emit .cutOff
    unexpected .expression
  | fuel + 1, count => do
    emit (.turned .arguments (count + 1))
    let start ← read Parse.peek
    let value ← nested
    check fun table => accept table count start.place value.ty
    match ← read (Parse.mark? .comma) with
    | some _ => arguments accept fuel (count + 1)
    | none => return count + 1

/-- A name, and the arguments behind it if it is called. -/
def nameOrCall (name : Name) : Analysis Operand := do
  match ← read (Parse.mark? .leftParen) with
  | none => check fun table => Expr.typeOfReference table name
  | some _ =>
    let symbol ← check fun table => Expr.requireFunction table name
    match ← read (Parse.mark? .rightParen) with
    | some _ => check fun _ => Expr.typeOfCall name symbol 0
    | none =>
      let given ← bounded fun fuel => arguments nested
        (fun table => Expr.requireArgument table name symbol.args) fuel 0
      expect .rightParen
      check fun _ => Expr.typeOfCall name symbol given

def primary : Analysis Operand := do
  match ← read Parse.name? with
  | some name => nameOrCall nested name
  | none =>
    match ← read (Parse.accept? Expr.literalOf) with
    | some ⟨(form, text), place⟩ => check fun _ => Expr.typeOfLiteral form ⟨text, place⟩
    | none =>
      match ← read (Parse.mark? .leftParen) with
      | some _ =>
        let value ← nested
        expect .rightParen
        return value
      | none => unexpected .expression

/-- A bracket, or a dot. -/
def suffix? : Analysis (Option (Place ⊕ Place)) := do
  match ← read (Parse.mark? .leftBracket) with
  | some opening => return some (.inl opening)
  | none => return (← read (Parse.token? (.operator .dot))).map .inr

/-- What follows a bracket or a dot behind a value. -/
def suffix (base : Operand) : Place ⊕ Place → Analysis Operand
  | .inl opening => do
    check fun table => Expr.requireArray table opening base.ty
    let start ← read Parse.peek
    let index ← nested
    check fun table => Expr.requireIndex table start.place index.ty
    expect .rightBracket
    return .stored base.ty.element
  | .inr dot => do
    let name ← expectName .memberName
    check fun table => Expr.typeOfMember table dot base name

def suffixed (fuel : Nat) : Analysis Operand := do
  repeating .suffixes suffix? (suffix nested) fuel 0 (← primary nested)

def unary : Nat → Analysis Operand
  | 0 => do
    emit .cutOff
    unexpected .expression
  | fuel + 1 => do
    match ← read (Parse.operator? [.minus, .bang]) with
    | some op =>
      let value ← unary fuel
      check fun table => Expr.typeOfUnary table op value.ty
    | none => suffixed nested (fuel + 1)

/-- A parenthesis that no type follows belongs to a value: the reading goes back to it. -/
def cast : Nat → Analysis Operand
  | 0 => do
    emit .cutOff
    unexpected .expression
  | fuel + 1 => do
    let checkpoint ← get
    match ← read (Parse.mark? .leftParen) with
    | none => unary nested (fuel + 1)
    | some _ =>
      match ← typeName with
      | none =>
        restore checkpoint
        unary nested (fuel + 1)
      | some target =>
        expect .rightParen
        let start ← read Parse.peek
        let value ← cast fuel
        check fun table => Expr.typeOfCast table start.place target value.ty

/-- Operands with operators between them. -/
def operators (ops : List Operator) (fuel : Nat) (operand : Analysis Operand) :
    Analysis Operand := do
  let body (left : Operand) (op : At Operator) : Analysis Operand := do
    let right ← operand
    check fun table => Expr.typeOfBinary table op left.ty right.ty
  repeating .operators (read (Parse.operator? ops)) body fuel 0 (← operand)

def levels (fuel : Nat) (operand : Analysis Operand) : List (List Operator) → Analysis Operand
  | [] => operand
  | ops :: tighter => operators ops fuel (levels fuel operand tighter)

def assign : Nat → Analysis Operand
  | 0 => do
    emit .cutOff
    unexpected .expression
  | fuel + 1 => do
    let start ← read Parse.peek
    let target ← levels (fuel + 1) (cast nested (fuel + 1)) Expr.levels
    match ← read (Parse.token? (.operator .assign)) with
    | none => return target
    | some op =>
      let value ← assign fuel
      check fun table => Expr.typeOfAssign table start.place op target value.ty

end

def expressionWithin : Nat → Analysis Operand
  | 0 => do
    emit .cutOff
    unexpected .expression
  | fuel + 1 => assign (expressionWithin fuel) (fuel + 1)

def expression : Analysis Operand := bounded expressionWithin

/-! ### Variables -/

/-- A value for an element of an array, at whatever position. -/
def acceptElement (element : Ty) (table : SymbolTable) (_ : Nat) (start : Place) (ty : Ty) :
    Checked Unit :=
  if !element.accepts ty then
    Checked.violate (.elementMismatch (table.typeName element) (table.typeName ty)) start
  else pure ()

/-- A value for a variable; gives the type of the variable. -/
def acceptValue (target : Ty) (table : SymbolTable) (start : Place) (source : Ty) : Checked Ty := do
  if !target.accepts source then
    Checked.violate (.initializerMismatch (table.typeName target) (table.typeName source)) start
  match source.extent with
  | .sized count => Initializer.fit start target count
  | _ => return target

def initializer (ty : Ty) : Analysis Ty := do
  match ← read (Parse.mark? .leftBrace) with
  | none =>
    let start ← read Parse.peek
    let source ← expression
    check fun table => acceptValue ty table start.place source.ty
  | some opening =>
    check fun table => Initializer.requireArray table opening ty
    match ← read (Parse.mark? .rightBrace) with
    | some _ => check fun _ => Initializer.fit opening ty 0
    | none =>
      let given ← bounded fun fuel => arguments expression (acceptElement ty.element) fuel 0
      expect .rightBrace
      check fun _ => Initializer.fit opening ty given

/-- The type of a variable with a name, for which there may be an initializer. -/
def initialized (region : Region) (name : Name) (ty : Ty) : Analysis Ty := do
  match ← read (Parse.token? (.operator .assign)) with
  | none => return ty
  | some op =>
    match region with
    | .members _ _ => check fun _ => Checked.violate (.memberInitialized name.value) op
    | .topLevel | .body _ => initializer ty

def declarator (base : Base) : Analysis Unit := do
  let name ← expectName .variableName
  let declared : Ty := ⟨base, ← extent⟩
  let region := (← get).region
  let ty ← initialized region name declared
  store fun table => region.declare table name ty

def varDeclaration : Analysis Bool := do
  match ← typeBase with
  | none => return false
  | some base =>
    commas (declarator base)
    expect .semicolon
    return true

/-! ### Statements -/

/-- An expression whose value is left. -/
def unused : Analysis Unit := do
  let _ ← expression

/-- An expression whose value is tested. -/
def tested : Analysis Unit := do
  let start ← read Parse.peek
  let value ← expression
  check fun _ => do
    if value.ty.isStruct then Checked.violate .structTested start.place
    if value.ty.isVoid then Checked.violate .voidTested start.place

def condition : Analysis Unit := do
  expect .leftParen
  tested
  expect .rightParen

/-- Something that can be left out in front of a mark. -/
def unlessSeen (mark : Delimiter) (analysis : Analysis Unit) : Analysis Unit := do
  if ← read (Parse.sees (.delimiter mark)) then return ()
  analysis

def forHeader : Analysis Unit := do
  expect .leftParen
  unlessSeen .semicolon unused
  expect .semicolon
  unlessSeen .semicolon tested
  expect .semicolon
  unlessSeen .rightParen unused
  expect .rightParen

section

variable (scope : FunctionScope)

/-- What a function gives back against its result type. -/
def acceptResult (table : SymbolTable) (word : Place) (ty : Ty) : Checked Unit := do
  if scope.result.isVoid then Checked.violate (.voidReturnsValue scope.name) word
  if !scope.result.accepts ty then
    Checked.violate (.returnMismatch (table.typeName ty) scope.name (table.typeName scope.result))
      word

/-- What follows the word `return`. -/
def returnValue (word : Place) : Analysis Unit := do
  if ← read (Parse.sees (.delimiter .semicolon)) then
    check fun table => scope.checkReturn table word none
  else
    let value ← expression
    check fun table => acceptResult scope table word value.ty
  expect .semicolon

end

/-- What follows the word `break`. -/
def breakLoop (word : Place) : Analysis Unit := do
  let loops := (← get).loops
  check fun _ => do if loops = 0 then Checked.violate .breakOutsideLoop word
  expect .semicolon

/-- An expression statement. -/
def expressionStatement : Analysis Unit := do
  let next ← read Parse.peek
  if Expr.canBegin next.value then
    unused
    expect .semicolon
  else
    unexpected .statement

section

variable (nested : Analysis Unit)

/-- A declaration or a statement, with which a turn has begun in a block that has not ended. -/
def item : Analysis Unit := do
  if ← read Parse.atEnd then
    unexpected (.mark .rightBrace)
  else if ← varDeclaration then
    return ()
  else
    nested

/-- The items of a block up to the brace that ends it. -/
def items : Analysis Unit := bounded fun fuel =>
  repeating .items (unlessEnded (Parse.sees (.delimiter .rightBrace))) (fun _ _ => item nested) fuel 0
    ()

def compound : Analysis Bool := do
  match ← read (Parse.mark? .leftBrace) with
  | none => return false
  | some _ =>
    items nested
    expect .rightBrace
    return true

/-- What follows the word `if`. -/
def ifStatement : Analysis Unit := do
  condition
  nested
  match ← read (Parse.keyword? .elseKw) with
  | none => return ()
  | some _ => nested

/-- A statement inside of one loop more. -/
def loopBody : Analysis Unit := do
  update fun s => { s with loops := s.loops + 1 }
  nested
  update fun s => { s with loops := s.loops - 1 }

end

/-- What follows the word `while`. -/
def whileStatement (nested : Analysis Unit) : Analysis Unit := do
  condition
  loopBody nested

/-- What follows the word `for`. -/
def forStatement (nested : Analysis Unit) : Analysis Unit := do
  forHeader
  loopBody nested

def statementWithin (scope : FunctionScope) : Nat → Analysis Unit
  | 0 => do
    emit .cutOff
    unexpected .statement
  | fuel + 1 => do
    let nested := statementWithin scope fuel
    if ← compound nested then return ()
    if let some _ ← read (Parse.keyword? .ifKw) then
      return ← ifStatement nested
    if let some _ ← read (Parse.keyword? .whileKw) then
      return ← whileStatement nested
    if let some _ ← read (Parse.keyword? .forKw) then
      return ← forStatement nested
    if let some word ← read (Parse.keyword? .breakKw) then
      return ← breakLoop word
    if let some word ← read (Parse.keyword? .returnKw) then
      return ← returnValue scope word
    if let some _ ← read (Parse.mark? .semicolon) then
      return ()
    expressionStatement

def statement (scope : FunctionScope) : Analysis Unit := bounded (statementWithin scope)

def compoundStatement (scope : FunctionScope) : Analysis Bool := compound (statement scope)

/-! ### Declarations -/

/-- A declaration of members, which is all of a turn. -/
def member? : Analysis (Option Unit) := do
  if ← varDeclaration then return some ()
  return none

def members : Analysis Unit := bounded fun fuel =>
  repeating .members member? (fun _ _ => pure ()) fuel 0 ()

/-- What follows the name of a struct and its brace. -/
def structBody (name : Name) : Analysis Unit := do
  let outer ← get
  let index := outer.table.size
  store fun table => do
    if let some previous := table.find? name.value then
      Checked.redefined name previous.line
    table.declare name (topLevelSymbol name .struct (.struct index))
  update fun s => { s with region := .members index name.value }
  members
  update fun s => { s with region := outer.region }
  expect .rightBrace
  expect .semicolon
  check fun table => Logged.write (.declaredStruct name.value
    (((table.get? index).map fun symbol => symbol.members.length).getD 0))

/-- Behind the name of a struct stands no brace where the struct is used as a type: the reading goes
back to the word in front of it. -/
def structDeclaration : Analysis Bool := do
  let checkpoint ← get
  match ← read (Parse.keyword? .structKw) with
  | none => return false
  | some _ =>
    let name ← expectName .structName
    match ← read (Parse.mark? .leftBrace) with
    | none =>
      restore checkpoint
      return false
    | some _ =>
      structBody name
      return true

/-- What a function gives: a star stands for an array. -/
def resultType : Analysis (Option Ty) := do
  match ← read (Parse.keyword? .voidKw) with
  | some _ => return some .void
  | none =>
    match ← typeBase with
    | none => return none
    | some base =>
      match ← read (Parse.token? (.operator .star)) with
      | none => return some ⟨base, .scalar⟩
      | some _ => return some ⟨base, .unsized⟩

/-- A parameter of the function with an index and a depth. -/
def param (index depth : Nat) : Analysis Unit := do
  match ← typeBase with
  | none => unexpected .parameterType
  | some base =>
    let name ← expectName .parameterName
    let ty : Ty := ⟨base, (← extent).ofParameter⟩
    let symbol : Symbol :=
      { name := name.value, cls := .var, ty, storage := .argument, depth, line := name.place.line }
    store fun table => table.declare name symbol
    update fun s => { s with table := s.table.addArg index symbol }

/-- What follows the parameters of a function, in front of which there was a state. At the end its
parameters and variables are taken back. -/
def behindParams (outer : State) (ty : Ty) (name : Name) : Analysis Unit := do
  expect .rightParen
  let index := outer.table.size
  let depth := outer.functions + 1
  if ← compoundStatement ⟨name.value, ty, depth⟩ then
    check fun table =>
      Logged.write (.declaredFunction name.value depth (table.size - (index + 1)))
    update fun s => { s with region := outer.region, table := s.table.truncate (index + 1) }
  else
    unexpected (.mark .leftBrace)

/-- What follows the name of a function and its parenthesis. -/
def functionBody (ty : Ty) (name : Name) : Analysis Unit := do
  let outer ← get
  let depth := outer.functions + 1
  store fun table => table.declare name (topLevelSymbol name .function ty)
  update fun s => { s with region := .body depth, functions := depth }
  unlessSeen .rightParen (commas (param outer.table.size depth))
  behindParams outer ty name

/-- Without a name behind the type, or a parenthesis behind the name, it is no function: the reading
goes back to the beginning. -/
def functionDeclaration : Analysis Bool := do
  let checkpoint ← get
  match ← resultType with
  | none => return false
  | some ty =>
    match ← read Parse.name? with
    | none =>
      restore checkpoint
      return false
    | some name =>
      match ← read (Parse.mark? .leftParen) with
      | none =>
        restore checkpoint
        return false
      | some _ =>
        functionBody ty name
        return true

/-- What is no struct, tried as a function and as variables. -/
def functionOrVariables : Analysis Unit := do
  if ← functionDeclaration then return ()
  else if ← varDeclaration then return ()
  else unexpected .declaration

def declaration : Analysis Unit := do
  if ← structDeclaration then return ()
  else functionOrVariables

/-- All declarations up to the end of input. -/
def declarations : Analysis Unit := bounded fun fuel =>
  repeating .declarations (unlessEnded Parse.atEnd) (fun _ _ => declaration) fuel 0 ()

end OnePass

end PlainC
