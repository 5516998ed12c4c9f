import PlainC.Decl.Check
import PlainC.Lexeme

set_option autoImplicit false

/-!
Walks over tokens with a cursor. All the tokens lie on a tape, those behind an end of input too, and
nothing but the walk itself keeps the cursor from getting there: it asks for a token by its index and
sets the cursor to an index. What it asks for and where it sets the cursor stands among its events.
-/

namespace PlainC

namespace Cursor

/-- Why a walk stops. -/
inductive Stop where
  | fault (fault : Fault)
  /-- The parser asks for the token of an index that is off the tape. -/
  | outside (index : Nat)
  /-- The bound of a recursion has been used up. -/
  | cutOff
  deriving DecidableEq

/-- What a walk does. -/
inductive Event where
  /-- It asks for the token of an index. -/
  | asked (index : Nat)
  /-- It sets the cursor to an index. -/
  | moved (index : Nat)
  /-- Where there is no token the evaluator of sizes takes it for the end of input, on line 0. -/
  | fellBack
  deriving DecidableEq

/-- What a walk does and what comes of it. -/
structure Run (σ α : Type) where
  events : List Event
  result : Except Stop (α × σ)

/-- A walk over a tape. -/
def Walk (σ α : Type) : Type := (tape : List Lexeme) → σ → Run σ α

namespace Run

variable {σ α β : Type}

/-- The run, and behind it another one, if it gets to its end. -/
def andThen (run : Run σ α) (next : α → σ → Run σ β) : Run σ β :=
  match run.result with
  | .error stop => ⟨run.events, .error stop⟩
  | .ok (a, s) => ⟨run.events ++ (next a s).events, (next a s).result⟩

end Run

namespace Walk

variable {σ α β : Type}

instance : Monad (Walk σ) where
  pure a := fun _ s => ⟨[], .ok (a, s)⟩
  bind walk next := fun tape s => (walk tape s).andThen fun a s' => next a tape s'

def get : Walk σ σ := fun _ s => ⟨[], .ok (s, s)⟩

def cutOff : Walk σ α := fun _ _ => ⟨[], .error .cutOff⟩

/-- What a check gives, or its fault. -/
def settle (rule : Checked α) : Walk σ α := fun _ s =>
  match rule.result with
  | .ok a => ⟨[], .ok (a, s)⟩
  | .error fault => ⟨[], .error (.fault fault)⟩

/-- Runs a walk whose recursion is bounded with a bound above the number of tokens on the tape. -/
def bounded (walk : Nat → Walk σ α) : Walk σ α := fun tape s => walk (tape.length + 1) tape s

/-- Takes turns of a loop as long as a test gives something to begin one with; `fuel` bounds the
turns. -/
def repeating (test : Walk σ (Option β)) (body : α → β → Walk σ α) : Nat → α → Walk σ α
  | 0, _ => cutOff
  | fuel + 1, a => do
    match ← test with
    | none => return a
    | some b => repeating test body fuel (← body a b)

end Walk

/-! ### The parser -/

/-- What the parser keeps apart from the cursor. -/
structure Memory where
  /-- The symbols, and the names that were met. -/
  table : SymbolTable
  /-- Where variables are declared. -/
  region : Region
  /-- The number of functions so far, of which the last one has it as its depth. -/
  functions : Nat
  /-- The number of loops around the statement that comes next. -/
  loops : Nat

/-- The cursor of the parser and what it keeps. -/
structure State where
  position : Nat
  memory : Memory

/-- A part of the parser. -/
abbrev Parser (α : Type) := Walk State α

namespace Parser

open Walk

variable {α : Type}

def update (change : Memory → Memory) : Parser Unit := fun _ s =>
  ⟨[], .ok ((), { s with memory := change s.memory })⟩

/-- The token of an index, which must be on the tape. -/
def token (index : Nat) : Parser Lexeme := fun tape s =>
  match tape[index]? with
  | some token => ⟨[.asked index], .ok (token, s)⟩
  | none => ⟨[.asked index], .error (.outside index)⟩

def moveTo (index : Nat) : Parser Unit := fun _ s =>
  ⟨[.moved index], .ok ((), { s with position := index })⟩

/-- The token at the cursor. -/
def current : Parser Lexeme := do
  token (← get).position

def atEnd : Parser Bool := do
  return decide ((← current).value = .endOfInput)

/-- Goes to the next token, but not further than an end of input; gives the token it comes from. -/
def advance : Parser Lexeme := do
  let here ← current
  if !(← atEnd) then
    moveTo ((← get).position + 1)
  return here

/-- Goes over the token at the cursor if its kind can be read. -/
def accept? (read : Kind → Option α) : Parser (Option (At α)) := do
  match read (← current).value with
  | none => return none
  | some a => return some ⟨a, (← advance).place⟩

/-- Goes over the token at the cursor if it is of the given kind. -/
def match? (kind : Kind) : Parser (Option Place) := do
  match ← accept? fun k => if k = kind then some () else none with
  | none => return none
  | some found => return some found.place

def sees (kind : Kind) : Parser Bool := do
  return decide ((← current).value = kind)

/-- Goes back to a checkpoint, whose token is asked for to note its line. -/
def restore (checkpoint : Nat) : Parser Unit := do
  let _ ← token checkpoint
  moveTo checkpoint

/-- Checks what has been read against the table. -/
def check (rule : SymbolTable → Checked α) : Parser α := do
  settle (rule (← get).memory.table)

/-- Checks what has been read and keeps what it adds to the table. -/
def store (rule : SymbolTable → Checked SymbolTable) : Parser Unit := do
  let table ← check rule
  update fun memory => { memory with table }

/-- What must come next is not there. -/
def unexpected (wanted : Wanted) : Parser α := do
  settle (Checked.unexpected wanted (← current))

end Parser

end Cursor

end PlainC
