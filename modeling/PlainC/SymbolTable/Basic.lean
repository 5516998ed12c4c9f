import PlainC.Symbol

set_option autoImplicit false

/-!
The symbol table: the declared symbols in order, of which the most recent one of a name is found,
and the names met so far, each of which has its position among them as a handle. A name can be
declared once at each depth. Symbols are taken back from the end; names stay.
-/

namespace PlainC

/-- The index of the last element that passes a test. -/
def lastIndex? {α : Type} (test : α → Bool) : List α → Option Nat
  | [] => none
  | a :: as =>
    match lastIndex? test as with
    | some i => some (i + 1)
    | none => if test a then some 0 else none

structure SymbolTable where
  names : List String := []
  symbols : List Symbol := []
  deriving Repr

/-- A name is taken at its depth by a declaration on the given line. -/
structure Redefinition where
  name : String
  previousLine : Nat
  deriving DecidableEq, Repr

namespace SymbolTable

def empty : SymbolTable := {}

/-! ### Names -/

/-- The handle of a name that was met before. -/
def handle? (table : SymbolTable) (name : String) : Option Nat :=
  table.names.findIdx? (· = name)

/-- The name that has a handle. -/
def nameOf? (table : SymbolTable) (handle : Nat) : Option String :=
  table.names[handle]?

/-- The table that has met a name. -/
def intern (table : SymbolTable) (name : String) : SymbolTable :=
  if name ∈ table.names then table else { table with names := table.names ++ [name] }

/-- The table that has met the names in order. -/
def internAll (table : SymbolTable) (names : List String) : SymbolTable :=
  names.foldl intern table

/-! ### Looking up -/

def size (table : SymbolTable) : Nat := table.symbols.length

def get? (table : SymbolTable) (index : Nat) : Option Symbol := table.symbols[index]?

/-- The last symbol that passes a test. -/
def findLast? (table : SymbolTable) (test : Symbol → Bool) : Option Symbol :=
  (lastIndex? test table.symbols).bind table.get?

/-- The index of the most recent symbol of a name. -/
def position? (table : SymbolTable) (name : String) : Option Nat :=
  lastIndex? (fun symbol => symbol.name = name) table.symbols

/-- The most recent symbol of a name. -/
def find? (table : SymbolTable) (name : String) : Option Symbol :=
  table.findLast? fun symbol => symbol.name = name

/-- The symbol of a name at a depth. -/
def findAtDepth? (table : SymbolTable) (name : String) (depth : Nat) : Option Symbol :=
  table.findLast? fun symbol => symbol.name = name && symbol.depth = depth

/-- The index of the most recent struct of a name. -/
def findStruct? (table : SymbolTable) (name : String) : Option Nat :=
  lastIndex? (fun symbol => symbol.name = name && symbol.cls = .struct) table.symbols

/-- The declaration of the struct with an index. -/
def structAt? (table : SymbolTable) (index : Nat) : Option Symbol :=
  (table.get? index).filter fun symbol => symbol.cls = .struct

/-! ### Changing -/

/-- Declares a symbol, at the index that is given back, unless its name is taken at its depth. -/
def add (table : SymbolTable) (symbol : Symbol) : Except Redefinition Nat × SymbolTable :=
  let table := table.internAll symbol.names
  match table.findAtDepth? symbol.name symbol.depth with
  | some previous => (.error ⟨symbol.name, previous.line⟩, table)
  | none => (.ok table.size, { table with symbols := table.symbols ++ [symbol] })

/-- Changes the symbol at an index. -/
def modify (table : SymbolTable) (index : Nat) (change : Symbol → Symbol) : SymbolTable :=
  { table with symbols := table.symbols.modify index change }

/-- Appends an argument to the symbol at an index. -/
def addArg (table : SymbolTable) (index : Nat) (arg : Symbol) : SymbolTable :=
  (table.internAll arg.names).modify index fun symbol =>
    { symbol with args := symbol.args ++ [arg] }

/-- Appends a member to the symbol at an index. -/
def addMember (table : SymbolTable) (index : Nat) (member : Symbol) : SymbolTable :=
  (table.internAll member.names).modify index fun symbol =>
    { symbol with members := symbol.members ++ [member] }

/-- Takes back all symbols behind the first `size` ones. -/
def truncate (table : SymbolTable) (size : Nat) : SymbolTable :=
  { table with symbols := table.symbols.take size }

/-- The name of a type, in which a declared struct has its own name. -/
def typeName (table : SymbolTable) (ty : Ty) : String :=
  let base := match ty.structIndex?.bind table.structAt? with
    | some struct => "struct " ++ struct.name
    | none => ty.base.text
  base ++ ty.extent.text

end SymbolTable

end PlainC
