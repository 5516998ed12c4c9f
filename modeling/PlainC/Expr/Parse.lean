import PlainC.Expr
import PlainC.TypeName.Parse

set_option autoImplicit false

/-!
Reading expressions. From the loosest to the tightest there are assignment, which associates to the
right, six levels of binary operators, which associate to the left, casts, signs and negation,
indices and members, and what needs no operator. A parenthesis in front of a type begins a cast.
-/

namespace PlainC

namespace Expr

def gap : Parse Expr := do
  return .missing (← Parse.peek)

/-- The binary operators, level by level, from the loosest to the tightest. -/
def levels : List (List Operator) :=
  [[.disj], [.conj], [.equal, .unequal], [.less, .lessEqual, .greater, .greaterEqual],
   [.plus, .minus], [.star, .slash, .percent]]

/-- Whether an expression can begin with a lexeme of the kind. -/
def canBegin : Kind → Bool
  | .identifier _ | .literal _ _ | .delimiter .leftParen | .operator .minus | .operator .bang => true
  | _ => false

def literalOf : Kind → Option (LiteralForm × String)
  | .literal form text => some (form, text)
  | _ => none

/-- Expressions with commas between them; `fuel` bounds their number. -/
def parseArgsWithin (nested : Parse Expr) : Nat → Parse Args
  | 0 => return .last (← gap)
  | fuel + 1 => do
    let arg ← nested
    match ← Parse.mark? .comma with
    | some comma => return .more arg comma (← parseArgsWithin nested fuel)
    | none => return .last arg

def parseArgs (nested : Parse Expr) : Parse Args := Parse.bounded (parseArgsWithin nested)

/-- A name, and the arguments behind it if it is called. -/
def parseName (nested : Parse Expr) (name : Name) : Parse Expr := do
  match ← Parse.mark? .leftParen with
  | none => return .reference name
  | some opening =>
    match ← Parse.mark? .rightParen with
    | some closing => return .callEmpty name opening closing
    | none =>
      let args ← parseArgs nested
      return .call name opening args (← Parse.mark .rightParen)

/-- A name, a call, a literal or an expression in parentheses. -/
def parsePrimary (nested : Parse Expr) : Parse Expr := do
  match ← Parse.name? with
  | some name => parseName nested name
  | none =>
    match ← Parse.accept? literalOf with
    | some ⟨(form, text), place⟩ => return .literal form ⟨text, place⟩
    | none =>
      match ← Parse.mark? .leftParen with
      | some opening =>
        let inner ← nested
        return .paren opening inner (← Parse.mark .rightParen)
      | none => gap

/-- An index or a member behind an expression. -/
def parseSuffix (nested : Parse Expr) (base : Expr) : Parse (Option Expr) := do
  match ← Parse.mark? .leftBracket with
  | some opening =>
    let index ← nested
    return some (.element base opening index (← Parse.mark .rightBracket))
  | none =>
    match ← Parse.token? (.operator .dot) with
    | some dot => return some (.member base dot (← Parse.name))
    | none => return none

def parsePostfix (nested : Parse Expr) (fuel : Nat) : Parse Expr := do
  Parse.extend (parseSuffix nested) fuel (← parsePrimary nested)

/-- Any number of signs and negations and what they stand in front of. -/
def parseUnary (nested : Parse Expr) : Nat → Parse Expr
  | 0 => gap
  | fuel + 1 => do
    match ← Parse.operator? [.minus, .bang] with
    | some op => return .unary op (← parseUnary nested fuel)
    | none => parsePostfix nested (fuel + 1)

/-- Takes a parenthesis in front of a type. -/
def castOpening? : Parse (Option Place) := fun _ ts =>
  match ts with
  | t :: u :: rest =>
    if t.value = .delimiter .leftParen ∧ u.value.beginsType then (some t.place, u :: rest)
    else (none, ts)
  | _ => (none, ts)

/-- Any number of casts and what they stand in front of. -/
def parseCast (nested : Parse Expr) : Nat → Parse Expr
  | 0 => gap
  | fuel + 1 => do
    match ← castOpening? with
    | none => parseUnary nested (fuel + 1)
    | some opening =>
      match ← TypeName.parse? with
      | none => gap
      | some target =>
        let closing ← Parse.mark .rightParen
        return .cast opening target closing (← parseCast nested fuel)

/-- Operands with the binary operators of the given levels between them. -/
def parseLevels (fuel : Nat) (operand : Parse Expr) : List (List Operator) → Parse Expr
  | [] => operand
  | ops :: tighter =>
    Parse.leftAssociative .binary ops fuel (parseLevels fuel operand tighter)

/-- Any number of assignments, of which the last has a value. -/
def parseAssign (nested : Parse Expr) : Nat → Parse Expr
  | 0 => gap
  | fuel + 1 => do
    let target ← parseLevels (fuel + 1) (parseCast nested (fuel + 1)) levels
    match ← Parse.token? (.operator .assign) with
    | some op => return .assign target op (← parseAssign nested fuel)
    | none => return target

def parseWithin : Nat → Parse Expr
  | 0 => gap
  | fuel + 1 => parseAssign (parseWithin fuel) (fuel + 1)

def parse : Parse Expr := Parse.bounded parseWithin

end Expr

end PlainC
