import PlainC.Expr.Parse
import PlainC.VarDecl

set_option autoImplicit false

/-!
Reading declarations of variables.
-/

namespace PlainC

def Initializer.parse : Parse Initializer := do
  match ← Parse.mark? .leftBrace with
  | none => return .value (← Expr.parse)
  | some opening =>
    match ← Parse.mark? .rightBrace with
    | some closing => return .noElements opening closing
    | none =>
      let elements ← Expr.parseArgs Expr.parse
      return .elements opening elements (← Parse.mark .rightBrace)

def Declarator.parse : Parse Declarator := do
  let name ← Parse.name
  let array ← ArrayPart.parse
  match ← Parse.token? (.operator .assign) with
  | none => return ⟨name, array, none⟩
  | some op => return ⟨name, array, some (op, ← Initializer.parse)⟩

/-- The declaration behind a base type. -/
def VarDecl.parseBehind (base : BaseName) : Parse VarDecl := do
  let declarators ← Separated.parse Declarator.parse
  return ⟨base, declarators, ← Parse.mark .semicolon⟩

/-- A declaration, if the next lexeme begins a base type. -/
def VarDecl.parse? : Parse (Option VarDecl) := do
  match ← BaseName.parse? with
  | none => return none
  | some base => return some (← parseBehind base)

/-- All the declarations up to the first lexeme that begins none; `fuel` bounds their number. -/
def VarDecl.parseAllWithin : Nat → Parse (List VarDecl)
  | 0 => pure []
  | fuel + 1 => do
    match ← parse? with
    | none => return []
    | some decl => return decl :: (← parseAllWithin fuel)

def VarDecl.parseAll : Parse (List VarDecl) := Parse.bounded parseAllWithin

end PlainC
