import PlainC.Decl
import PlainC.Stmt.Check

set_option autoImplicit false

/-!
What top-level declarations add to the symbol table. A struct is there for its members and a
function for its body; the parameters and variables of a function are taken back at its end.
-/

namespace PlainC

/-- What the declarations so far amount to: their symbols, and the number of functions, each of
which has a depth of its own. -/
structure Declared where
  table : SymbolTable
  depth : Nat
  deriving Repr

/-- The place of the first lexeme. -/
def BaseName.start : BaseName → Place
  | int word | double word | char word | struct word _ => word

/-- Notes that the declaration of a struct was tried where a base type is that of a struct. -/
def BaseName.noteStruct : BaseName → Checked Unit
  | struct word (.found _) => Checked.backtracked 2 word
  | _ => pure ()

def ResultType.noteStruct : ResultType → Checked Unit
  | void _ => pure ()
  | value base | array base _ => base.noteStruct

def ResultType.resolve (table : SymbolTable) : ResultType → Checked Ty
  | void _ => pure .void
  | value base => do return ⟨← base.resolve table, .scalar⟩
  | array base _ => do return ⟨← base.resolve table, .unsized⟩

/-- The extent of a parameter: that of an array is any size, whatever is written. -/
def Extent.ofParameter : Extent → Extent
  | scalar => scalar
  | unsized | sized _ => unsized

/-- A symbol at the top level. -/
def topLevelSymbol (name : Name) (cls : SymbolClass) (ty : Ty) : Symbol :=
  { name := name.value, cls, ty, storage := .global, depth := 0, line := name.place.line }

/-- Declares a parameter of the function with an index and a depth, both for its body and as a
part of the function itself. -/
def Param.declare (index depth : Nat) (table : SymbolTable) (slot : Slot Param) :
    Checked SymbolTable := do
  let param ← Checked.require .parameterType slot
  let base ← param.base.resolve table
  let name ← Checked.require .parameterName param.name
  let extent ← param.array.extent
  let symbol : Symbol :=
    { name := name.value, cls := .var, ty := ⟨base, extent.ofParameter⟩, storage := .argument,
      depth, line := name.place.line }
  let table ← table.declare name symbol
  return table.addArg index symbol

namespace Declared

/-- The declaration of a struct. Its name must be new to the whole table. -/
def declareStruct (declared : Declared) (name : Name) (members : List VarDecl)
    (closing semicolon : Slot Place) : Checked Declared := do
  if let some previous := declared.table.find? name.value then
    Checked.redefined name previous.line
  let index := declared.table.size
  let table ← declared.table.declare name (topLevelSymbol name .struct (.struct index))
  let table ← members.foldlM (VarDecl.declare (.members index name.value)) table
  Checked.requireMark .rightBrace closing
  Checked.requireMark .semicolon semicolon
  let count := ((table.get? index).map fun symbol => symbol.members.length).getD 0
  Logged.write (.declaredStruct name.value count)
  return { declared with table }

/-- The declaration of a function. -/
def declareFunction (declared : Declared) (result : ResultType) (name : Name)
    (params : List (Slot Param)) (closing : Slot Place) (body : Slot Block) :
    Checked Declared := do
  let ty ← result.resolve declared.table
  let index := declared.table.size
  let depth := declared.depth + 1
  let table ← declared.table.declare name (topLevelSymbol name .function ty)
  let table ← params.foldlM (Param.declare index depth) table
  Checked.requireMark .rightParen closing
  let block ← Checked.require (.mark .leftBrace) body
  let table ← block.check ⟨name.value, ty, depth⟩ table
  Logged.write (.declaredFunction name.value depth (table.size - (index + 1)))
  return { table := table.truncate (index + 1), depth }

end Declared

/-- Notes that the beginning of a function was tried over a number of tokens. -/
def noteFunction (tried : Nat) (start : Place) : Checked Unit :=
  if tried = 0 then pure () else Checked.backtracked tried start

/-- Adds what a declaration declares. -/
def Decl.check (declared : Declared) : Decl → Checked Declared
  | struct _ name _ members closing semicolon =>
    declared.declareStruct name members closing semicolon
  | function result name _ params closing body => do
    result.noteStruct
    declared.declareFunction result name ((params.map Separated.toList).getD []) closing body
  | vars tried decl => do
    decl.base.noteStruct
    let _ ← decl.base.resolve declared.table
    noteFunction tried decl.base.start
    let table ← decl.declare .topLevel declared.table
    return { declared with table }
  | missing tried instead => do
    noteFunction tried instead.place
    Checked.unexpected .declaration instead

end PlainC
