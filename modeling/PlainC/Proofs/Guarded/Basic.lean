import PlainC.Proofs.Cursor.Productions

set_option autoImplicit false

/-!
The parser with its guards. It knows what is open by an index in the table, its counters have a
bound, and where the symbols of a function are taken back they are counted; wherever one of this
could go wrong stands a trap. What has no state of its own but the cursor is the parser with a
cursor, of which every token that it asks for is guarded.
-/

namespace PlainC

namespace Guarded

/-- The counters are below this number. -/
def counterBound : Nat := 4294967296

/-- What must never happen. -/
inductive Trap where
  /-- The token of an index is asked for, which is off the tape. -/
  | offTape (index : Nat)
  /-- A counter gets to its bound. -/
  | wrapped
  /-- A counter is taken back from zero. -/
  | belowZero
  /-- The table is shorter than what is to be left of it. -/
  | released (size mark : Nat)
  /-- The struct whose members are declared is not in the table. -/
  | vanished
  /-- A value is returned, but no function is open. -/
  | returnOutside
  /-- The name of an external function is taken. -/
  | externalTaken
  /-- The bound of a recursion has been used up. -/
  | cutOff
  deriving DecidableEq

/-- What is open. The parser knows the index of a struct or function in the table, and the depth of
a function; the symbol that was declared there is noted beside it. -/
inductive Context where
  | global
  | struct (index : Nat) (opened : Symbol)
  | function (index depth : Nat) (opened : Symbol)

def Context.region : Context → Region
  | global => .topLevel
  | struct index opened => .members index opened.name
  | function _ depth _ => .body depth

/-- The cursor of the parser and what it keeps. -/
structure State where
  position : Nat
  table : SymbolTable
  context : Context
  /-- The depth of the last function. -/
  lastDepth : Nat
  /-- The number of loops around the statement that comes next. -/
  loopDepth : Nat

/-- The state of the parser with a cursor. -/
def State.cursor (s : State) : Cursor.State :=
  ⟨s.position, ⟨s.table, s.context.region, s.lastDepth, s.loopDepth⟩⟩

/-- What comes of a part of the parser: a trap, or else a value or a fault, and the state with it.
The states that it sets on its way are noted. -/
structure Run (α : Type) where
  visited : List State
  result : Except Trap (Except Fault α × State)

/-- A part of the parser. -/
def Parser (α : Type) : Type := (tape : List Lexeme) → State → Run α

namespace Parser

variable {α β : Type}

instance : Monad Parser where
  pure a := fun _ s => ⟨[], .ok (.ok a, s)⟩
  bind parser next := fun tape s =>
    let run := parser tape s
    match run.result with
    | .error trap => ⟨run.visited, .error trap⟩
    | .ok (.error fault, s') => ⟨run.visited, .ok (.error fault, s')⟩
    | .ok (.ok a, s') => ⟨run.visited ++ (next a tape s').visited, (next a tape s').result⟩

def get : Parser State := fun _ s => ⟨[], .ok (.ok s, s)⟩

def update (change : State → State) : Parser Unit := fun _ s =>
  ⟨[change s], .ok (.ok (), change s)⟩

def trap (trap : Trap) : Parser α := fun _ _ => ⟨[], .error trap⟩

/-- The index of the first token that is asked for although it is off the tape. -/
def firstOff (tape : List Lexeme) (events : List Cursor.Event) : Option Nat :=
  events.findSome? fun
    | .asked index => if index < tape.length then none else some index
    | .moved _ | .fellBack => none

/-- A part of the parser with a cursor that moves nothing else. -/
def lift (parser : Cursor.Parser α) : Parser α := fun tape s =>
  let run := parser tape s.cursor
  match firstOff tape run.events, run.result with
  | some index, _ => ⟨[], .error (.offTape index)⟩
  | none, .error (.outside index) => ⟨[], .error (.offTape index)⟩
  | none, .error .cutOff => ⟨[], .error .cutOff⟩
  | none, .error (.fault fault) => ⟨[], .ok (.error fault, s)⟩
  | none, .ok (a, reached) =>
    let s' := { s with position := reached.position }
    ⟨[s'], .ok (.ok a, s')⟩

/-- One more than a counter. -/
def countUp (count : Nat) : Parser Nat :=
  if count + 1 < counterBound then pure (count + 1) else trap .wrapped

/-- A part of the parser and a last step behind it, which is done even if the part fails. -/
def ending (parser : Parser α) (last : State → Except Trap State) : Parser α := fun tape s =>
  let run := parser tape s
  match run.result with
  | .error trap => ⟨run.visited, .error trap⟩
  | .ok (outcome, s') =>
    match last s' with
    | .error trap => ⟨run.visited, .error trap⟩
    | .ok s'' => ⟨run.visited ++ [s''], .ok (outcome, s'')⟩

/-- Runs a part whose recursion is bounded with a bound above the number of tokens on the tape. -/
def bounded (parser : Nat → Parser α) : Parser α := fun tape s => parser (tape.length + 1) tape s

/-- Takes turns of a loop as long as a test gives something to begin one with; `fuel` bounds the
turns. -/
def repeating (test : Parser (Option β)) (body : α → β → Parser α) : Nat → α → Parser α
  | 0, _ => trap .cutOff
  | fuel + 1, a => do
    match ← test with
    | none => return a
    | some b => repeating test body fuel (← body a b)

/-- Declares a symbol and gives its index. -/
def declare (name : Name) (symbol : Symbol) : Parser Nat := do
  match (← get).table.add symbol with
  | (.ok index, table) =>
    update fun s => { s with table }
    return index
  | (.error previous, _) => lift (Cursor.Walk.settle (Checked.redefined name previous.previousLine))

end Parser

end Guarded

end PlainC
