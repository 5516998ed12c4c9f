import PlainC.Expr.Typing
import PlainC.VarDecl

set_option autoImplicit false

/-!
What declarations of variables add to the symbol table. A variable is there once its initializer has
been checked, so an initializer cannot use the name that it belongs to.
-/

namespace PlainC

/-- Where variables are declared: at the top level, in the struct with an index and a name, or in
a function, which has a depth of its own. -/
inductive Region where
  | topLevel
  | members (index : Nat) (struct : String)
  | body (depth : Nat)
  deriving DecidableEq, Repr

/-- The refusal of a name that is taken. -/
def Checked.redefined {α : Type} (name : Name) (previousLine : Nat) : Checked α :=
  Checked.violate (.redefinition name.value previousLine) name.place

/-- Declares a symbol, whose name is taken from a place. -/
def SymbolTable.declare (table : SymbolTable) (name : Name) (symbol : Symbol) :
    Checked SymbolTable :=
  match table.add symbol with
  | (.ok _, table) => pure table
  | (.error previous, _) => Checked.redefined name previous.previousLine

namespace Region

/-- The symbol of a variable. -/
def variableSymbol (region : Region) (name : Name) (ty : Ty) : Symbol where
  name := name.value
  cls := .var
  ty := ty
  storage := match region with
    | topLevel => .global
    | members _ _ | body _ => .localVar
  depth := match region with
    | topLevel | members _ _ => 0
    | body depth => depth
  line := name.place.line

/-- Declares a variable. The members of a struct are apart from all other names, and none of them
is, or is an array of, the struct itself. -/
def declare (region : Region) (table : SymbolTable) (name : Name) (ty : Ty) :
    Checked SymbolTable :=
  let symbol := region.variableSymbol name ty
  match region with
  | topLevel | body _ => table.declare name symbol
  | members index struct =>
    if ty.base = .struct index then Checked.violate (.containsItself struct) name.place
    else match (table.get? index).bind fun owner => owner.member? name.value with
      | some previous => Checked.redefined name previous.line
      | none => pure (table.addMember index symbol)

end Region

namespace Initializer

/-- The type of an array that gets a number of elements. -/
def fit (start : Place) (ty : Ty) (count : Nat) : Checked Ty :=
  match ty.extent with
  | .sized size =>
    if count > size then Checked.violate (.tooManyInitializers count size) start else pure ty
  | .unsized => pure { ty with extent := if count > 0 then .sized count else .unsized }
  | .scalar => pure ty

/-- Checks a value for an element of an array. -/
def checkElement (table : SymbolTable) (element : Ty) (expr : Expr) : Checked Unit := do
  let value ← expr.type table
  if !element.accepts value.ty then
    Checked.violate (.elementMismatch (table.typeName element) (table.typeName value.ty)) expr.start

def checkElements (table : SymbolTable) (element : Ty) : Args → Checked Unit
  | .last expr => checkElement table element expr
  | .more expr _ rest => do
    checkElement table element expr
    checkElements table element rest

def requireArray (table : SymbolTable) (opening : Place) (ty : Ty) : Checked Unit :=
  if ty.isArray then pure ()
  else Checked.violate (.bracesForScalar (table.typeName ty)) opening

/-- The type of a variable that is declared with a type and initialized. -/
def type (table : SymbolTable) (ty : Ty) : Initializer → Checked Ty
  | noElements opening _ => do
    requireArray table opening ty
    fit opening ty 0
  | elements opening args closing => do
    requireArray table opening ty
    checkElements table ty.element args
    Checked.requireMark .rightBrace closing
    fit opening ty args.length
  | value expr => do
    let source ← expr.type table
    if !ty.accepts source.ty then
      Checked.violate (.initializerMismatch (table.typeName ty) (table.typeName source.ty)) expr.start
    match source.ty.extent with
    | .sized count => fit expr.start ty count
    | _ => return ty

end Initializer

/-- The type of the variable, given its base type. -/
def Declarator.type (region : Region) (table : SymbolTable) (name : Name) (base : Base)
    (declarator : Declarator) : Checked Ty := do
  let ty : Ty := ⟨base, ← declarator.array.extent⟩
  match declarator.initializer with
  | none => return ty
  | some (op, initializer) =>
    match region with
    | .members _ _ => Checked.violate (.memberInitialized name.value) op
    | _ => initializer.type table ty

def Declarator.declare (region : Region) (base : Base) (table : SymbolTable)
    (declarator : Declarator) : Checked SymbolTable := do
  let name ← Checked.require .variableName declarator.name
  let ty ← declarator.type region table name base
  region.declare table name ty

namespace VarDecl

/-- Declares the variables of a declaration. -/
def declare (region : Region) (table : SymbolTable) (decl : VarDecl) : Checked SymbolTable := do
  let base ← decl.base.resolve table
  let table ← decl.declarators.toList.foldlM (Declarator.declare region base) table
  Checked.requireMark .semicolon decl.semicolon
  return table

end VarDecl

end PlainC
