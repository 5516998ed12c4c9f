import PlainC.Proofs.Guarded.Basic

set_option autoImplicit false

/-!
The productions that have to do with more than the cursor: variables, loops, and what is open.
-/

namespace PlainC

namespace Guarded

namespace Parser

open Cursor.Parser (match? accept? current expect expectName sees atEnd check typeBase extent
  expression condition forHeader unlessEnded)

/-- Things with commas between them. -/
def commas (item : Parser Unit) : Parser Unit := do
  item
  bounded fun fuel => repeating (lift (match? (.delimiter .comma))) (fun _ _ => item) fuel ()

/-! ### Variables -/

/-- The elements of an array, which are counted. -/
def elements (element : Ty) : Nat → Nat → Parser Nat
  | 0, _ => trap .cutOff
  | fuel + 1, count => do
    let start ← lift current
    let value ← lift expression
    lift (check fun table => OnePass.acceptElement element table count start.place value.ty)
    let count ← countUp count
    match ← lift (match? (.delimiter .comma)) with
    | some _ => elements element fuel count
    | none => return count

def initializer (ty : Ty) : Parser Ty := do
  match ← lift (match? (.delimiter .leftBrace)) with
  | none =>
    let start ← lift current
    let source ← lift expression
    lift (check fun table => OnePass.acceptValue ty table start.place source.ty)
  | some opening =>
    lift (check fun table => Initializer.requireArray table opening ty)
    match ← lift (match? (.delimiter .rightBrace)) with
    | some _ => lift (check fun _ => Initializer.fit opening ty 0)
    | none =>
      let given ← bounded fun fuel => elements ty.element fuel 0
      lift (expect .rightBrace)
      lift (check fun _ => Initializer.fit opening ty given)

/-- The type of a variable with a name, for which there may be an initializer. -/
def initialized (name : Name) (ty : Ty) : Parser Ty := do
  match ← lift (match? (.operator .assign)) with
  | none => return ty
  | some op =>
    match (← get).context with
    | .struct _ _ => lift (check fun _ => Checked.violate (.memberInitialized name.value) op)
    | .global | .function _ _ _ => initializer ty

/-- A member of the struct with an index. -/
def declareMember (index : Nat) (name : Name) (ty : Ty) (member : Symbol) : Parser Unit := do
  let table := (← get).table
  if ty.base = .struct index then
    let owner := ((table.get? index).map Symbol.name).getD ""
    lift (check fun _ => Checked.violate (.containsItself owner) name.place)
  else
    match table.get? index with
    | none => trap .vanished
    | some owner =>
      match owner.member? name.value with
      | some previous => lift (check fun _ => Checked.redefined name previous.line)
      | none => update fun s => { s with table := s.table.addMember index member }

/-- A variable of what is open. -/
def declareVariable (name : Name) (ty : Ty) : Parser Unit := do
  let context := (← get).context
  let symbol := context.region.variableSymbol name ty
  match context with
  | .struct index _ => declareMember index name ty symbol
  | .global | .function _ _ _ =>
    let _ ← declare name symbol

def declarator (base : Base) : Parser Unit := do
  let name ← lift (expectName .variableName)
  let declared : Ty := ⟨base, ← lift extent⟩
  let ty ← initialized name declared
  declareVariable name ty

def varDeclaration : Parser Bool := do
  match ← lift typeBase with
  | none => return false
  | some base =>
    commas (declarator base)
    lift (expect .semicolon)
    return true

/-! ### Statements -/

/-- The function that is open, as it is in the table. -/
def openFunction : Parser FunctionScope := do
  let s ← get
  match s.context with
  | .global | .struct _ _ => trap .returnOutside
  | .function index depth _ =>
    match s.table.get? index with
    | none => trap .returnOutside
    | some function => return ⟨function.name, function.ty, depth⟩

/-- What follows the word `return`. -/
def returnValue (word : Place) : Parser Unit := do
  if ← lift (sees (.delimiter .semicolon)) then
    let scope ← openFunction
    lift (check fun table => scope.checkReturn table word none)
  else
    let value ← lift expression
    let scope ← openFunction
    lift (check fun table => OnePass.acceptResult scope table word value.ty)
  lift (expect .semicolon)

/-- One loop less. -/
def leaveLoop (s : State) : Except Trap State :=
  match s.loopDepth with
  | 0 => .error .belowZero
  | loops + 1 => .ok { s with loopDepth := loops }

section

variable (nested : Parser Unit)

/-- A declaration or a statement, with which a turn has begun in a block that has not ended. -/
def item : Parser Unit := do
  if ← lift atEnd then
    lift (Cursor.Parser.unexpected (.mark .rightBrace))
  else if ← varDeclaration then
    return ()
  else
    nested

/-- The items of a block up to the brace that ends it. -/
def items : Parser Unit := bounded fun fuel =>
  repeating (lift (unlessEnded (sees (.delimiter .rightBrace)))) (fun _ _ => item nested) fuel ()

def compound : Parser Bool := do
  match ← lift (match? (.delimiter .leftBrace)) with
  | none => return false
  | some _ =>
    items nested
    lift (expect .rightBrace)
    return true

/-- What follows the word `if`. -/
def ifStatement : Parser Unit := do
  lift condition
  nested
  match ← lift (match? (.keyword .elseKw)) with
  | none => return ()
  | some _ => nested

/-- A statement inside of one loop more. -/
def loopBody : Parser Unit := do
  let loops ← countUp (← get).loopDepth
  update fun s => { s with loopDepth := loops }
  ending nested leaveLoop

end

/-- What follows the word `while`. -/
def whileStatement (nested : Parser Unit) : Parser Unit := do
  lift condition
  loopBody nested

/-- What follows the word `for`. -/
def forStatement (nested : Parser Unit) : Parser Unit := do
  lift forHeader
  loopBody nested

def statementWithin : Nat → Parser Unit
  | 0 => trap .cutOff
  | fuel + 1 => do
    let nested := statementWithin fuel
    if ← compound nested then return ()
    if let some _ ← lift (match? (.keyword .ifKw)) then
      return ← ifStatement nested
    if let some _ ← lift (match? (.keyword .whileKw)) then
      return ← whileStatement nested
    if let some _ ← lift (match? (.keyword .forKw)) then
      return ← forStatement nested
    if let some word ← lift (match? (.keyword .breakKw)) then
      return ← lift (Cursor.Parser.breakLoop word)
    if let some word ← lift (match? (.keyword .returnKw)) then
      return ← returnValue word
    if let some _ ← lift (match? (.delimiter .semicolon)) then
      return ()
    lift Cursor.Parser.expressionStatement

def statement : Parser Unit := bounded statementWithin

def compoundStatement : Parser Bool := compound statement

/-! ### Declarations -/

/-- A declaration of members, which is all of a turn. -/
def member? : Parser (Option Unit) := do
  if ← varDeclaration then return some ()
  return none

def members : Parser Unit := bounded fun fuel =>
  repeating member? (fun _ _ => pure ()) fuel ()

/-- What follows the name of a struct and its brace. -/
def structBody (name : Name) : Parser Unit := do
  let outer ← get
  let index := outer.table.size
  let symbol := topLevelSymbol name .struct (.struct index)
  match outer.table.find? name.value with
  | some previous => lift (check fun _ => Checked.redefined name previous.line)
  | none =>
    let _ ← declare name symbol
    update fun s => { s with context := .struct index symbol }
    members
    update fun s => { s with context := outer.context }
    lift (expect .rightBrace)
    lift (expect .semicolon)

/-- Behind the name of a struct stands no brace where the struct is used as a type: the cursor goes
back to the word in front of it. -/
def structDeclaration : Parser Bool := do
  let checkpoint := (← get).position
  match ← lift (match? (.keyword .structKw)) with
  | none => return false
  | some _ =>
    let name ← lift (expectName .structName)
    match ← lift (match? (.delimiter .leftBrace)) with
    | none =>
      lift (Cursor.Parser.restore checkpoint)
      return false
    | some _ =>
      structBody name
      return true

/-- A parameter of the function with an index and a depth. -/
def param (index depth : Nat) : Parser Unit := do
  match ← lift typeBase with
  | none => lift (Cursor.Parser.unexpected .parameterType)
  | some base =>
    let name ← lift (expectName .parameterName)
    let ty : Ty := ⟨base, (← lift extent).ofParameter⟩
    let symbol : Symbol :=
      { name := name.value, cls := .var, ty, storage := .argument, depth, line := name.place.line }
    let _ ← declare name symbol
    update fun s => { s with table := s.table.addArg index symbol }

/-- The parameters of a function, of which there may be none. -/
def params (index depth : Nat) : Parser Unit := do
  if ← lift (sees (.delimiter .rightParen)) then return ()
  commas (param index depth)

/-- Takes back the symbols behind the one at the mark. -/
def release (mark : Nat) : Parser Unit := do
  let size := (← get).table.size
  if size < mark + 1 then
    trap (.released size mark)
  else
    update fun s => { s with table := s.table.truncate (mark + 1) }

/-- What follows the name of a function and its parenthesis. -/
def functionBody (ty : Ty) (name : Name) : Parser Unit := do
  let outer ← get
  let mark := outer.table.size
  let symbol := topLevelSymbol name .function ty
  let index ← declare name symbol
  let depth ← countUp outer.lastDepth
  update fun s => { s with context := .function index depth symbol, lastDepth := depth }
  params index depth
  lift (expect .rightParen)
  if ← compoundStatement then
    update fun s => { s with context := outer.context }
    release mark
  else
    lift (Cursor.Parser.unexpected (.mark .leftBrace))

/-- Without a name behind the type, or a parenthesis behind the name, it is no function: the cursor
goes back to the beginning. -/
def functionDeclaration : Parser Bool := do
  let checkpoint := (← get).position
  match ← lift Cursor.Parser.resultType with
  | none => return false
  | some ty =>
    match ← lift (accept? Parse.nameOf) with
    | none =>
      lift (Cursor.Parser.restore checkpoint)
      return false
    | some name =>
      match ← lift (match? (.delimiter .leftParen)) with
      | none =>
        lift (Cursor.Parser.restore checkpoint)
        return false
      | some _ =>
        functionBody ty name
        return true

/-- What is no struct, tried as a function and as variables. -/
def functionOrVariables : Parser Unit := do
  if ← functionDeclaration then return ()
  else if ← varDeclaration then return ()
  else lift (Cursor.Parser.unexpected .declaration)

def declaration : Parser Unit := do
  if ← structDeclaration then return ()
  else functionOrVariables

/-- All declarations up to an end of input. -/
def declarations : Parser Unit := bounded fun fuel =>
  repeating (lift (unlessEnded atEnd)) (fun _ _ => declaration) fuel ()

/-- The declarations of a program; its position is that of the cursor. -/
def program : Parser Program := do
  declarations
  let reached ← get
  return ⟨reached.table, reached.position⟩

end Parser

/-- The state in front of all tokens, with the table that an analysis begins with. -/
def State.outset (table : SymbolTable) : State := ⟨0, table, .global, 0, 0⟩

/-- The analysis of tokens, which must end with the end of input. -/
def ofTokens (tokens : List Token) : Run Program :=
  let tape := Lexeme.number 0 tokens
  let refuse (rule : Checked Program) : Run Program :=
    Parser.lift (Cursor.Walk.settle rule) tape (.outset .empty)
  match tape.getLast? with
  | none => refuse (Checked.refuse .noTokens ⟨0, ⟨0, 0⟩, 1⟩)
  | some final =>
    if final.value ≠ .endOfInput then refuse (Checked.unexpected .endOfInput final)
    else
      match SymbolTable.empty.addExternals with
      | (some _, _) => ⟨[], .error .externalTaken⟩
      | (none, table) => Parser.program tape (.outset table)

end Guarded

end PlainC
