import PlainC.Proofs.Guarded.Productions

set_option autoImplicit false

/-!
What the parser with its guards enters. Its productions are written down once more, now with a note
of every declaration and every statement that is entered, and of what the statement or declaration
stands in; without the notes they are the productions of the parser.
-/

namespace PlainC

namespace Guarded

open Cursor.Parser (match? accept? current expect expectName sees atEnd check typeBase extent
  expression condition forHeader unlessEnded)

/-- What of a function a declaration or a statement can stand in. -/
inductive Frame where
  /-- Braces. -/
  | block
  /-- What follows the condition of an `if`, or the word `else`. -/
  | branch
  /-- What follows the head of a `while` or `for`. -/
  | loop
  deriving DecidableEq

/-- A declaration or a statement that the parser enters. -/
structure Entry where
  /-- What it stands in, from the inside to the outside. Outside of all functions it is nothing. -/
  frames : List Frame
  /-- The state in front of it. -/
  entered : State
  /-- The state behind it, even if it is refused. -/
  left : Except Trap State

/-- A part of the parser, and what it enters where it stands in some frames. -/
structure Tracked (α : Type) where
  parser : Parser α
  entries : List Frame → List Lexeme → State → List Entry

namespace Tracked

variable {α β : Type}

/-- What is entered behind a part, if it comes to a value. -/
def behind (run : Run α) (entries : α → State → List Entry) : List Entry :=
  match run.result with
  | .ok (.ok a, s) => entries a s
  | .ok (.error _, _) | .error _ => []

instance : Monad Tracked where
  pure a := ⟨pure a, fun _ _ _ => []⟩
  bind part next := ⟨part.parser >>= fun a => (next a).parser, fun frames tape s =>
    part.entries frames tape s ++
      behind (part.parser tape s) fun a s' => (next a).entries frames tape s'⟩

/-- A part in which nothing is entered. -/
def plain (parser : Parser α) : Tracked α := ⟨parser, fun _ _ _ => []⟩

/-- A part that is entered as a whole. -/
def entering (part : Tracked α) : Tracked α := ⟨part.parser, fun frames tape s =>
  ⟨frames, s, (part.parser tape s).result.map Prod.snd⟩ :: part.entries frames tape s⟩

/-- A part in one frame more. -/
def within (frame : Frame) (part : Tracked α) : Tracked α :=
  ⟨part.parser, fun frames => part.entries (frame :: frames)⟩

def ending (part : Tracked α) (last : State → Except Trap State) : Tracked α :=
  ⟨Parser.ending part.parser last, part.entries⟩

def bounded (part : Nat → Tracked α) : Tracked α :=
  ⟨Parser.bounded fun fuel => (part fuel).parser, fun frames tape =>
    (part (tape.length + 1)).entries frames tape⟩

def repeating (test : Tracked (Option β)) (body : α → β → Tracked α) : Nat → α → Tracked α
  | 0, _ => plain (Parser.trap .cutOff)
  | fuel + 1, a => do
    match ← test with
    | none => return a
    | some b => repeating test body fuel (← body a b)

def lift (parser : Cursor.Parser α) : Tracked α := plain (Parser.lift parser)

/-! ### Statements -/

def varDeclaration : Tracked Bool := entering (plain Parser.varDeclaration)

section

variable (nested : Tracked Unit)

def item : Tracked Unit := do
  if ← lift atEnd then
    lift (Cursor.Parser.unexpected (.mark .rightBrace))
  else if ← varDeclaration then
    return ()
  else
    nested

def items : Tracked Unit := bounded fun fuel =>
  repeating (lift (unlessEnded (sees (.delimiter .rightBrace)))) (fun _ _ => item nested) fuel ()

def compound : Tracked Bool := do
  match ← lift (match? (.delimiter .leftBrace)) with
  | none => return false
  | some _ =>
    within .block (items nested)
    lift (expect .rightBrace)
    return true

def ifStatement : Tracked Unit := do
  lift condition
  within .branch nested
  match ← lift (match? (.keyword .elseKw)) with
  | none => return ()
  | some _ => within .branch nested

def loopBody : Tracked Unit := do
  let loops ← plain (Parser.countUp (← plain Parser.get).loopDepth)
  plain (Parser.update fun s => { s with loopDepth := loops })
  ending nested Parser.leaveLoop

end

def whileStatement (nested : Tracked Unit) : Tracked Unit := do
  lift condition
  within .loop (loopBody nested)

def forStatement (nested : Tracked Unit) : Tracked Unit := do
  lift forHeader
  within .loop (loopBody nested)

def statementWithin : Nat → Tracked Unit
  | 0 => plain (Parser.trap .cutOff)
  | fuel + 1 => entering do
    let nested := statementWithin fuel
    if ← compound nested then return ()
    if let some _ ← lift (match? (.keyword .ifKw)) then
      return ← ifStatement nested
    if let some _ ← lift (match? (.keyword .whileKw)) then
      return ← whileStatement nested
    if let some _ ← lift (match? (.keyword .forKw)) then
      return ← forStatement nested
    if let some word ← lift (match? (.keyword .breakKw)) then
      return ← lift (Cursor.Parser.breakLoop word)
    if let some word ← lift (match? (.keyword .returnKw)) then
      return ← plain (Parser.returnValue word)
    if let some _ ← lift (match? (.delimiter .semicolon)) then
      return ()
    lift Cursor.Parser.expressionStatement

def statement : Tracked Unit := bounded statementWithin

def compoundStatement : Tracked Bool := compound statement

/-! ### Declarations -/

def member? : Tracked (Option Unit) := do
  if ← varDeclaration then return some ()
  return none

def members : Tracked Unit := bounded fun fuel =>
  repeating member? (fun _ _ => pure ()) fuel ()

def structBody (name : Name) : Tracked Unit := do
  let outer ← plain Parser.get
  let index := outer.table.size
  let symbol := topLevelSymbol name .struct (.struct index)
  match outer.table.find? name.value with
  | some previous => lift (check fun _ => Checked.redefined name previous.line)
  | none =>
    let _ ← plain (Parser.declare name symbol)
    plain (Parser.update fun s => { s with context := .struct index symbol })
    members
    plain (Parser.update fun s => { s with context := outer.context })
    lift (expect .rightBrace)
    lift (expect .semicolon)

def structDeclaration : Tracked Bool := entering do
  let checkpoint := (← plain Parser.get).position
  match ← lift (match? (.keyword .structKw)) with
  | none => return false
  | some _ =>
    let name ← lift (expectName .structName)
    match ← lift (match? (.delimiter .leftBrace)) with
    | none =>
      lift (Cursor.Parser.restore checkpoint)
      return false
    | some _ =>
      structBody name
      return true

def functionBody (ty : Ty) (name : Name) : Tracked Unit := do
  let outer ← plain Parser.get
  let mark := outer.table.size
  let symbol := topLevelSymbol name .function ty
  let index ← plain (Parser.declare name symbol)
  let depth ← plain (Parser.countUp outer.lastDepth)
  plain (Parser.update fun s =>
    { s with context := .function index depth symbol, lastDepth := depth })
  plain (Parser.params index depth)
  lift (expect .rightParen)
  if ← compoundStatement then
    plain (Parser.update fun s => { s with context := outer.context })
    plain (Parser.release mark)
  else
    lift (Cursor.Parser.unexpected (.mark .leftBrace))

def functionDeclaration : Tracked Bool := entering do
  let checkpoint := (← plain Parser.get).position
  match ← lift Cursor.Parser.resultType with
  | none => return false
  | some ty =>
    match ← lift (accept? Parse.nameOf) with
    | none =>
      lift (Cursor.Parser.restore checkpoint)
      return false
    | some name =>
      match ← lift (match? (.delimiter .leftParen)) with
      | none =>
        lift (Cursor.Parser.restore checkpoint)
        return false
      | some _ =>
        functionBody ty name
        return true

def functionOrVariables : Tracked Unit := do
  if ← functionDeclaration then return ()
  else if ← varDeclaration then return ()
  else lift (Cursor.Parser.unexpected .declaration)

def declaration : Tracked Unit := entering do
  if ← structDeclaration then return ()
  else functionOrVariables

def declarations : Tracked Unit := bounded fun fuel =>
  repeating (lift (unlessEnded atEnd)) (fun _ _ => declaration) fuel ()

def program : Tracked Program := do
  declarations
  let reached ← plain Parser.get
  return ⟨reached.table, reached.position⟩

/-! ### Without the notes -/

theorem bind_same {first first' : Parser α} {next next' : α → Parser β} (same : first = first')
    (same' : ∀ a, next a = next' a) : (first >>= next) = (first' >>= next') :=
  same ▸ congrArg _ (funext same')

theorem parser_bounded {part : Nat → Tracked α} {parser : Nat → Parser α}
    (same : ∀ fuel, (part fuel).parser = parser fuel) :
    (bounded part).parser = Parser.bounded parser :=
  congrArg Parser.bounded (funext same)

theorem parser_repeating {test : Tracked (Option β)} {body : α → β → Tracked α}
    {parser : α → β → Parser α} (same : ∀ a b, (body a b).parser = parser a b) :
    ∀ fuel a, (repeating test body fuel a).parser = Parser.repeating test.parser parser fuel a := by
  intro fuel
  induction fuel with
  | zero => exact fun _ => rfl
  | succ fuel ih =>
    intro a
    refine bind_same rfl ?_
    rintro (_ | b)
    · rfl
    · exact bind_same (same a b) ih

section

variable (nested : Tracked Unit)

theorem parser_item : (item nested).parser = Parser.item nested.parser := by
  refine bind_same rfl ?_
  rintro (_ | _)
  · refine bind_same rfl ?_
    rintro (_ | _) <;> rfl
  · rfl

theorem parser_items : (items nested).parser = Parser.items nested.parser :=
  parser_bounded fun fuel => parser_repeating (fun _ _ => parser_item nested) fuel ()

theorem parser_compound : (compound nested).parser = Parser.compound nested.parser := by
  refine bind_same rfl ?_
  rintro (_ | opening)
  · rfl
  · exact bind_same (parser_items nested) fun _ => rfl

theorem parser_ifStatement : (ifStatement nested).parser = Parser.ifStatement nested.parser := by
  refine bind_same rfl fun _ => bind_same rfl fun _ => bind_same rfl ?_
  rintro (_ | word) <;> rfl

theorem parser_whileStatement :
    (whileStatement nested).parser = Parser.whileStatement nested.parser := rfl

theorem parser_forStatement :
    (forStatement nested).parser = Parser.forStatement nested.parser := rfl

end

theorem parser_statementWithin :
    ∀ fuel, (statementWithin fuel).parser = Parser.statementWithin fuel := by
  intro fuel
  induction fuel with
  | zero => rfl
  | succ fuel ih =>
    refine bind_same ((parser_compound _).trans (congrArg _ ih)) ?_
    rintro (_ | _)
    case true => rfl
    refine bind_same rfl ?_
    rintro (_ | _)
    case some => exact (parser_ifStatement _).trans (congrArg _ ih)
    refine bind_same rfl ?_
    rintro (_ | _)
    case some => exact (parser_whileStatement _).trans (congrArg _ ih)
    refine bind_same rfl ?_
    rintro (_ | _)
    case some => exact (parser_forStatement _).trans (congrArg _ ih)
    refine bind_same rfl ?_
    rintro (_ | _)
    case some => rfl
    refine bind_same rfl ?_
    rintro (_ | _)
    case some => rfl
    refine bind_same rfl ?_
    rintro (_ | _) <;> rfl

theorem parser_compoundStatement : compoundStatement.parser = Parser.compoundStatement := by
  have statements : statement.parser = Parser.statement := parser_bounded parser_statementWithin
  exact (parser_compound statement).trans (congrArg _ statements)

theorem parser_members : members.parser = Parser.members := by
  refine parser_bounded fun fuel => ?_
  have member : member?.parser = Parser.member? := by
    refine bind_same rfl ?_
    rintro (_ | _) <;> rfl
  rw [← member]
  exact parser_repeating (fun _ _ => rfl) fuel ()

theorem parser_structBody (name : Name) : (structBody name).parser = Parser.structBody name := by
  refine bind_same rfl fun outer => ?_
  cases found : outer.table.find? name.value with
  | some previous => simp only [found]; rfl
  | none =>
    simp only [found]
    refine bind_same rfl fun _ => bind_same rfl fun _ => ?_
    exact bind_same parser_members fun _ => rfl

theorem parser_structDeclaration : structDeclaration.parser = Parser.structDeclaration := by
  refine bind_same rfl fun s => bind_same rfl ?_
  rintro (_ | word)
  · rfl
  refine bind_same rfl fun name => bind_same rfl ?_
  rintro (_ | opening)
  · rfl
  · exact bind_same (parser_structBody name) fun _ => rfl

theorem parser_functionBody (ty : Ty) (name : Name) :
    (functionBody ty name).parser = Parser.functionBody ty name := by
  refine bind_same rfl fun outer => bind_same rfl fun index => bind_same rfl fun depth => ?_
  refine bind_same rfl fun _ => bind_same rfl fun _ => bind_same rfl fun _ => ?_
  refine bind_same parser_compoundStatement ?_
  rintro (_ | _) <;> rfl

theorem parser_functionDeclaration :
    functionDeclaration.parser = Parser.functionDeclaration := by
  refine bind_same rfl fun s => bind_same rfl ?_
  rintro (_ | ty)
  · rfl
  refine bind_same rfl ?_
  rintro (_ | name)
  · rfl
  refine bind_same rfl ?_
  rintro (_ | opening)
  · rfl
  · exact bind_same (parser_functionBody ty name) fun _ => rfl

theorem parser_declaration : declaration.parser = Parser.declaration := by
  refine bind_same parser_structDeclaration ?_
  rintro (_ | _)
  case true => rfl
  refine bind_same parser_functionDeclaration ?_
  rintro (_ | _)
  case true => rfl
  refine bind_same rfl ?_
  rintro (_ | _) <;> rfl

/-- Without the notes it is the parser. -/
theorem parser_program : program.parser = Parser.program := by
  refine bind_same ?_ fun _ => rfl
  exact parser_bounded fun fuel => parser_repeating (fun _ _ => parser_declaration) fuel ()

end Tracked

/-- What the analysis of tokens enters. -/
def entries (tokens : List Token) : List Entry :=
  let tape := Lexeme.number 0 tokens
  match tape.getLast? with
  | none => []
  | some final =>
    if final.value ≠ .endOfInput then []
    else
      match SymbolTable.empty.addExternals with
      | (some _, _) => []
      | (none, table) => Tracked.program.entries [] tape (.outset table)

end Guarded

end PlainC
