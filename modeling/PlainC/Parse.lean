import PlainC.Lexeme

set_option autoImplicit false

/-!
Parsers: a parser reads lexemes from the front of a list and never fails, because what it does not
find leaves a gap in the tree. It takes no lexeme that it does not put into its result.
-/

namespace PlainC

/-- A reading of the lexemes in a list, behind which stands the end of input `last`. -/
def Parse (α : Type) : Type := (last : Lexeme) → List Lexeme → α × List Lexeme

namespace Parse

variable {α β : Type}

instance : Monad Parse where
  pure a := fun _ ts => (a, ts)
  bind parser next := fun last ts =>
    match parser last ts with
    | (a, rest) => next a last rest

@[simp] theorem pure_apply (a : α) (last : Lexeme) (ts : List Lexeme) :
    (pure a : Parse α) last ts = (a, ts) := rfl

@[simp] theorem bind_apply (parser : Parse α) (next : α → Parse β) (last : Lexeme)
    (ts : List Lexeme) :
    (parser >>= next) last ts = next (parser last ts).1 last (parser last ts).2 := rfl

instance : LawfulMonad Parse :=
  LawfulMonad.mk' Parse (fun _ => rfl) (fun _ _ => rfl) (fun _ _ _ => rfl)

/-- The lexeme that comes next, which stays where it is. -/
def peek : Parse Lexeme := fun last ts => (ts.headD last, ts)

/-- The slot of something that is not there. -/
def missing : Parse (Slot α) := do
  return .missing (← peek)

/-- Takes the next lexeme if its kind can be read. -/
def accept? (read : Kind → Option α) : Parse (Option (At α)) := fun _ ts =>
  match ts with
  | [] => (none, [])
  | t :: rest =>
    match read t.value with
    | some a => (some ⟨a, t.place⟩, rest)
    | none => (none, t :: rest)

/-- Takes the next lexeme if it is of the given kind. -/
def token? (kind : Kind) : Parse (Option Place) := do
  match ← accept? fun k => if k = kind then some () else none with
  | some t => return some t.place
  | none => return none

/-- A token that must come next. -/
def token (kind : Kind) : Parse (Slot Place) := do
  match ← token? kind with
  | some place => return .found place
  | none => missing

def mark? (mark : Delimiter) : Parse (Option Place) := token? (.delimiter mark)

def mark (mark : Delimiter) : Parse (Slot Place) := token (.delimiter mark)

def keyword? (word : Keyword) : Parse (Option Place) := token? (.keyword word)

/-- The operator of a kind, if it is one of those given. -/
def operatorAmong (ops : List Operator) : Kind → Option Operator
  | .operator op => if op ∈ ops then some op else none
  | _ => none

def operator? (ops : List Operator) : Parse (Option (At Operator)) :=
  accept? (operatorAmong ops)

def nameOf : Kind → Option String
  | .identifier name => some name
  | _ => none

def name? : Parse (Option Name) := accept? nameOf

/-- An identifier that must come next. -/
def name : Parse (Slot Name) := do
  match ← name? with
  | some name => return .found name
  | none => missing

/-- Whether the next lexeme is of the given kind. -/
def sees (kind : Kind) : Parse Bool := do
  return decide ((← peek).value = kind)

/-- Whether no lexeme is left. -/
def atEnd : Parse Bool := fun _ ts => (ts.isEmpty, ts)

/-- Runs a parser whose recursion is bounded with a bound above the number of lexemes. -/
def bounded (parser : Nat → Parse α) : Parse α := fun last ts =>
  parser (ts.length + 1) last ts

/-- Extends a value by a step as often as the step can be taken; `fuel` bounds the steps. -/
def extend (step : α → Parse (Option α)) : Nat → α → Parse α
  | 0, a => pure a
  | fuel + 1, a => do
    match ← step a with
    | some b => extend step fuel b
    | none => pure a

/-- Operands with operators between them, which associate to the left. -/
def leftAssociative (build : At Operator → α → α → α) (ops : List Operator) (fuel : Nat)
    (operand : Parse α) : Parse α := do
  let first ← operand
  let step (left : α) : Parse (Option α) := do
    match ← operator? ops with
    | some op => return some (build op left (← operand))
    | none => return none
  extend step fuel first

end Parse

/-- Things with commas between them. -/
structure Separated (α : Type) where
  first : α
  rest : List (Place × α)
  deriving Repr

namespace Separated

variable {α : Type}

def toList (items : Separated α) : List α := items.first :: items.rest.map Prod.snd

/-- What follows the first of things with commas between them; `fuel` bounds their number. -/
def parseRest (item : Parse α) : Nat → Parse (List (Place × α))
  | 0 => pure []
  | fuel + 1 => do
    match ← Parse.mark? .comma with
    | some comma =>
      let next ← item
      return (comma, next) :: (← parseRest item fuel)
    | none => return []

def parse (item : Parse α) : Parse (Separated α) := do
  let first ← item
  return ⟨first, ← Parse.bounded (parseRest item)⟩

end Separated

end PlainC
